import LpcTools.Proofs.BlockReplies
import LpcTools.Proofs.StatusReplies

/-!
# A device that does what its status 0 says

What the host's requests have to do with the memory of the device, and the assumption on a device
that it carries out a command it answers with status 0, and leaves its memory alone when it answers
with another code. It may refuse any command, and ask for any block again.
-/

namespace LpcTools

open Run Decimal Uuencode

/-- The memory of a device, and the transfer it is in: where the next byte goes, and how many are still
to come. -/
structure Chip where
  flash : UInt32 → UInt8
  ram : UInt32 → UInt8
  expects : Option (UInt32 × ℕ)

/-- A memory with bytes stored in it. -/
def place (m : UInt32 → UInt8) (addr : UInt32) (bs : List UInt8) : UInt32 → UInt8 :=
  fun a => bs.getD (a - addr).toNat (m a)

def Chip.receive (c : Chip) (bs : List UInt8) : Chip :=
  match c.expects with
  | none => c
  | some (addr, n) =>
    { c with
      ram := place c.ram addr bs
      expects := if n ≤ bs.length then none else some (addr + UInt32.ofNat bs.length, n - bs.length) }

/-- A command, with its numbers as the host sends them. -/
inductive Command where
  | unlock
  | blankCheck (first last : UInt32)
  | prepare (first last : UInt32)
  | erase (first last : UInt32)
  | write (addr count : UInt32)
  | copy (dst src count : UInt32)

namespace Command

def text : Command → List UInt8
  | unlock => LpcTools.unlock
  | blankCheck first last => twoArgsText 'I'.toUInt8 first.toNat last.toNat
  | prepare first last => twoArgsText 'P'.toUInt8 first.toNat last.toNat
  | erase first last => twoArgsText 'E'.toUInt8 first.toNat last.toNat
  | write addr count => twoArgsText 'W'.toUInt8 addr.toNat count.toNat
  | copy dst src count => addressText 'C'.toUInt8 dst.toNat src.toNat count.toNat

/-- The reply to a command: the status, and behind the refusal of a blank check the place and the
content of the first word that is not blank. -/
def Reply (c : Command) (s : ℕ) (reply : List UInt8) : Prop :=
  reply = statusText s ∨ s ≠ 0 ∧ (∃ first last, c = blankCheck first last) ∧
    ∃ offset content : UInt32, reply =
      statusText s ++ (statusText offset.toNat ++ statusText content.toNat)

/-- The address lies in one of the sectors. -/
def InSectors (sector : UInt32 → Option ℕ) (first last a : UInt32) : Prop :=
  ∃ s, sector a = some s ∧ first.toNat ≤ s ∧ s ≤ last.toNat

open Classical in
/-- What is done. `sector` is the sector of an address, in flash. -/
noncomputable def effect (sector : UInt32 → Option ℕ) : Command → Chip → Chip
  | erase first last, c =>
    { c with flash := fun a => if InSectors sector first last a then 0xFF else c.flash a }
  | write addr count, c =>
    { c with expects := if count = 0 then none else some (addr, count.toNat) }
  | copy dst src count, c =>
    { c with flash := fun a => if a - dst < count then c.ram (src + (a - dst)) else c.flash a }
  | _, c => c

/-- What is said by status 0. -/
def Holds (sector : UInt32 → Option ℕ) : Command → Chip → Prop
  | blankCheck first last, c => ∀ a, InSectors sector first last a → c.flash a = 0xFF
  | _, _ => True

end Command

variable {δ : Type}

/-- The device at the end of the line is faithful. `uu` says whether it takes data encoded. -/
structure Faithful (L : Line δ) (sector : UInt32 → Option ℕ) (uu : ℕ) (chip : δ → Chip) : Prop where
  prompt : Line.Prompt L.arrive
  command : ∀ d (c : Command), (chip d).expects = none → ∃ s ≤ 19, ∃ reply d',
    L.hear d c.text = ([reply], d') ∧ c.Reply s reply ∧
      (s = 0 → c.Holds sector (chip d) ∧ chip d' = c.effect sector (chip d)) ∧
      (s ≠ 0 → chip d' = chip d)
  block : uu ≠ 0 → ∀ d addr n text bs, (chip d).expects = some (addr, n) → Carries text bs →
    bs.length = min n 900 → ∃ accepted d', L.hear d text = ([blockReply accepted], d') ∧
      chip d' = if accepted then (chip d).receive bs else chip d
  raw : uu = 0 → ∀ d addr n bs, (chip d).expects = some (addr, n) → bs.length = n →
    ∃ d', L.hear d bs = ([], d') ∧ chip d' = (chip d).receive bs

/-- How often the block that is expected has been refused. -/
def refusedSince (ds : List Bool) : ℕ := ds.foldl (fun n accepted => if accepted then 0 else n + 1) 0

theorem refusedSince_snoc (ds : List Bool) (d : Bool) :
    refusedSince (ds ++ [d]) = if d then 0 else refusedSince ds + 1 := by
  rw [refusedSince, List.foldl_append]
  rfl

/-- The device does all that can be done, and refuses no block three times in a row. `refusals` counts
the refusals of the block that it expects. -/
structure Willing (L : Line δ) (sector : UInt32 → Option ℕ) (chip : δ → Chip) (refusals : δ → ℕ) :
    Prop where
  command : ∀ d (c : Command), (chip d).expects = none → c.Holds sector (chip d) →
    (L.hear d c.text).1 = [statusText 0]
  few : ∀ d, refusals d ≤ 2
  refuse : ∀ d addr n text bs d', (chip d).expects = some (addr, n) → Carries text bs →
    bs.length = min n 900 → L.hear d text = ([blockReply false], d') → refusals d' = refusals d + 1

/-- The states a device goes through as it hears the messages. -/
def Line.states (L : Line δ) : δ → List (List UInt8) → List δ
  | _, [] => []
  | d, text :: texts => (L.hear d text).2 :: L.states (L.hear d text).2 texts

/-- The messages heard from `h` to `h'`, after each of which the device is in a state with `P`. -/
def Passed (L : Line δ) (P : δ → Prop) (h h' : Host (Wire δ)) : Prop :=
  ∃ texts, h'.env.heard.map Prod.fst = h.env.heard.map Prod.fst ++ texts ∧
    h'.env.dev = texts.foldl (fun d text => (L.hear d text).2) h.env.dev ∧
    ∀ d ∈ L.states h.env.dev texts, P d

section Passed

variable {L : Line δ} {P P' : δ → Prop} {h h' h'' : Host (Wire δ)}

theorem Line.states_append : ∀ (d : δ) (a b : List (List UInt8)), L.states d (a ++ b) =
    L.states d a ++ L.states (a.foldl (fun d text => (L.hear d text).2) d) b
  | _, [], _ => rfl
  | d, text :: a, b => by
    rw [List.cons_append, Line.states, Line.states, Line.states_append, List.cons_append,
      List.foldl_cons]

theorem Passed.of_env (henv : h'.env.heard = h.env.heard) (hdev : h'.env.dev = h.env.dev) :
    Passed L P h h' := ⟨[], by rw [henv, List.append_nil], hdev, fun _ hd => by cases hd⟩

theorem Passed.refl (h : Host (Wire δ)) : Passed L P h h := .of_env rfl rfl

theorem Passed.trans (p : Passed L P h h') (q : Passed L P h' h'') : Passed L P h h'' := by
  obtain ⟨a, ha, hda, hPa⟩ := p
  obtain ⟨b, hb, hdb, hPb⟩ := q
  refine ⟨a ++ b, ?_, ?_, fun d hd => ?_⟩
  · rw [hb, ha, List.append_assoc]
  · rw [hdb, hda, List.foldl_append]
  · rw [Line.states_append, ← hda, List.mem_append] at hd
    exact hd.elim (hPa d) (hPb d)

theorem Passed.mono (hP : ∀ d, P d → P' d) (p : Passed L P h h') : Passed L P' h h' := by
  obtain ⟨texts, hheard, hdev, hall⟩ := p
  exact ⟨texts, hheard, hdev, fun d hd => hP d (hall d hd)⟩

/-- One message. -/
theorem Passed.single {text unread : List UInt8} (hheard : h'.env.heard = h.env.heard ++ [(text, unread)])
    (hdev : h'.env.dev = (L.hear h.env.dev text).2) (hP : P h'.env.dev) : Passed L P h h' := by
  refine ⟨[text], by rw [hheard, List.map_append]; rfl, hdev, fun d hd => ?_⟩
  rw [List.mem_singleton.1 hd, ← hdev]
  exact hP

theorem Passed.last (hP : P h.env.dev) (p : Passed L P h h') : P h'.env.dev := by
  obtain ⟨texts, -, hdev, hall⟩ := p
  rw [hdev]
  rcases List.eq_nil_or_concat texts with rfl | ⟨before, text, rfl⟩
  · exact hP
  · refine hall _ ?_
    rw [List.concat_eq_append, Line.states_append, List.foldl_append]
    exact List.mem_append_right _ List.mem_cons_self

end Passed

section Place

variable {m : UInt32 → UInt8} {addr a : UInt32} {bs cs : List UInt8}

theorem place_of_lt (h : (a - addr).toNat < bs.length) : place m addr bs a = bs[(a - addr).toNat] := by
  rw [place, List.getD_eq_getElem?_getD, List.getElem?_eq_getElem h]
  rfl

theorem place_of_le (h : bs.length ≤ (a - addr).toNat) : place m addr bs a = m a := by
  rw [place, List.getD_eq_getElem?_getD, List.getElem?_eq_none h]
  rfl

/-- Bytes stored one list behind the other. -/
theorem place_append (h : bs.length + cs.length < 2 ^ 32) :
    place (place m addr bs) (addr + UInt32.ofNat bs.length) cs = place m addr (bs ++ cs) := by
  funext a
  have hbehind : (a - (addr + UInt32.ofNat bs.length)).toNat =
      (2 ^ 32 - bs.length + (a - addr).toNat) % 2 ^ 32 := by
    have hlen : (UInt32.ofNat bs.length).toNat = bs.length := by
      rw [UInt32.toNat_ofNat', Nat.mod_eq_of_lt (by omega)]
    rw [UInt32.toNat_sub, UInt32.toNat_add, UInt32.toNat_sub, hlen]
    have := a.toNat_lt
    have := addr.toNat_lt
    omega
  have hlt := (a - addr).toNat_lt
  by_cases hbs : (a - addr).toNat < bs.length
  · rw [place_of_le (by rw [hbehind]; omega), place_of_lt hbs,
      place_of_lt (by rw [List.length_append]; omega), List.getElem_append_left hbs]
  · have hidx : (a - (addr + UInt32.ofNat bs.length)).toNat = (a - addr).toNat - bs.length := by
      rw [hbehind]
      omega
    by_cases hcs : (a - addr).toNat - bs.length < cs.length
    · rw [place_of_lt (by rw [hidx]; exact hcs), place_of_lt (by rw [List.length_append]; omega),
        List.getElem_append_right (by omega)]
      simp only [hidx]
    · rw [place_of_le (by rw [hidx]; omega), place_of_le (by omega),
        place_of_le (by rw [List.length_append]; omega)]

end Place

end LpcTools
