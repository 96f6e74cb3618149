import LpcTools.Proofs.EndToEnd
import LpcTools.Proofs.MirrorTools
import LpcTools.Proofs.RamFile
import LpcTools.Proofs.ShortTransfers

/-!
# What the tools say on the line

Whatever the device does, a program offers the line nothing but what is left of the messages of its
command. The line runs with software flow control, so that it matters that no message but raw data
has a control character in it; and a command that only looks asks for nothing that changes the device.
-/

namespace LpcTools

open Run Decimal Uuencode

variable {σ : Type} {E : Sys σ} {V : List UInt8 → Prop}

/-- The texts handed to `write`. -/
def offers (ps : List Poll) : List (List UInt8) :=
  ps.filterMap fun
    | .write offered _ => some offered
    | .read _ => none

/-- What is left of a message when a part of it is written. -/
def LeftOf (V : List UInt8 → Prop) (text : List UInt8) : Prop := ∃ message, V message ∧ text <:+ message

/-- All that has been offered has a property. -/
def Offered (P : List UInt8 → Prop) (s : σ × List Poll) : Prop := ∀ text ∈ offers s.2, P text

/-- Nothing but messages has been offered. -/
def OnlySaid (V : List UInt8 → Prop) (s : σ × List Poll) : Prop := Offered (LeftOf V) s

theorem offers_read (ps : List Poll) (r : ReadOutcome) : offers (ps ++ [.read r]) = offers ps := by
  simp [offers]

theorem offers_write (ps : List Poll) (bs : List UInt8) (r : WriteOutcome) :
    offers (ps ++ [.write bs r]) = offers ps ++ [bs] := by
  simp [offers]

/-- The traced system in a state in which only messages have been offered is its own mirror. -/
theorem mirrors_traced : Mirrors E.traced E.traced (fun s t => s = t ∧ OnlySaid V s) (LeftOf V) where
  read := by
    rintro s _ n r s' ⟨rfl, hs⟩ hr
    refine ⟨s', hr, rfl, fun text htext => ?_⟩
    rw [traced_read hr, offers_read] at htext
    exact hs text htext
  write := by
    rintro s _ bs r s' ⟨rfl, hs⟩ hbs hw
    refine ⟨s', hw, rfl, fun text htext => ?_⟩
    rw [traced_write hw, offers_write] at htext
    rcases List.mem_append.1 htext with htext | htext
    · exact hs text htext
    · rw [List.mem_singleton.1 htext]
      exact hbs
  suffix := by
    rintro s bs n s' ⟨message, hmessage, hsuffix⟩ - -
    exact ⟨message, hmessage, (List.drop_suffix n bs).trans hsuffix⟩
  stack := fun h => by rw [h.1]
  beyond := fun h => by rw [h.1]
  malloc := fun h => by rw [h.1]
  openInput := fun h => by rw [h.1]
  stdin := fun h => by rw [h.1]
  openOutput := fun h => by rw [h.1]
  save := fun h => by rw [h.1]
  traceOn := rfl

theorem leftOf_self {text : List UInt8} (h : V text) : LeftOf V text := ⟨text, h, List.suffix_refl _⟩

/-- A program offers the line nothing but what is left of its messages. -/
theorem Invocation.onlySaid {invocation : Invocation} (hspoken : invocation.Says E.traced (LeftOf V))
    (fuel : ℕ) (env : σ) (c : UInt8) (n m : ℕ) :
    OnlySaid V (final (invocation.run E.traced fuel (.start (env, []) c n m))).env := by
  have hnone : OnlySaid V (env, ([] : List Poll)) := fun text htext => by cases htext
  have hpaired : Twin (fun s t => s = t ∧ OnlySaid V s) (Host.start (env, []) c n m)
      (Host.start (env, []) c n m) := ⟨⟨rfl, hnone⟩, rfl, rfl, rfl, rfl⟩
  exact (alike_invocation mirrors_traced hpaired hspoken fuel).final.env.2

section Printed

/-- A character that no line discipline or flow control acts on, and the line end. -/
def Printed (c : UInt8) : Prop := c = 13 ∨ c = 10 ∨ 32 ≤ c ∧ c ≤ 126

instance : DecidablePred Printed := fun _ => inferInstanceAs (Decidable (_ ∨ _ ∨ _ ∧ _))

def AllPrinted (text : List UInt8) : Prop := ∀ c ∈ text, Printed c

instance (text : List UInt8) : Decidable (AllPrinted text) := List.decidableBAll _ text

theorem AllPrinted.append {a b : List UInt8} (ha : AllPrinted a) (hb : AllPrinted b) :
    AllPrinted (a ++ b) := fun c hc => (List.mem_append.1 hc).elim (ha c) (hb c)

theorem AllPrinted.cons {c : UInt8} {a : List UInt8} (hc : Printed c) (ha : AllPrinted a) :
    AllPrinted (c :: a) := fun d hd => (List.mem_cons.1 hd).elim (fun h => h ▸ hc) (ha d)

theorem allPrinted_crlf : AllPrinted crlf := by decide

theorem allPrinted_decimal (n : ℕ) : AllPrinted (decimal n) := by
  have hdigit : ∀ d < 10, Printed (digit d) := by decide
  obtain ⟨d, ds, hlt, hdec, -⟩ := decimal_digits n
  rw [hdec]
  intro c hc
  obtain ⟨e, he, rfl⟩ := List.mem_map.1 hc
  exact hdigit e (hlt e he)

theorem allPrinted_twoArgsText {cmd : UInt8} (hcmd : Printed cmd) (a b : ℕ) :
    AllPrinted (twoArgsText cmd a b) := by
  have hspace : Printed ' '.toUInt8 := by decide
  exact .cons hcmd (.cons hspace ((allPrinted_decimal a).append
    (.cons hspace ((allPrinted_decimal b).append allPrinted_crlf))))

theorem allPrinted_addressText {cmd : UInt8} (hcmd : Printed cmd) (a b c : ℕ) :
    AllPrinted (addressText cmd a b c) := by
  have hspace : Printed ' '.toUInt8 := by decide
  exact .cons hcmd (.cons hspace ((allPrinted_decimal a).append (.cons hspace
    ((allPrinted_decimal b).append (.cons hspace ((allPrinted_decimal c).append allPrinted_crlf))))))

theorem allPrinted_goText {mode : UInt8} (hmode : Printed mode) (a : ℕ) :
    AllPrinted (goText a mode) := by
  have hspace : Printed ' '.toUInt8 := by decide
  exact .cons (by decide) (.cons hspace ((allPrinted_decimal a).append
    (.cons hspace (.cons hmode allPrinted_crlf))))

theorem allPrinted_freqText (freq : UInt32) : AllPrinted (freqText freq) := by
  have hsigned : ∀ z : ℤ, AllPrinted (signedDecimal z) := by
    intro z
    unfold signedDecimal
    split_ifs
    · exact .cons (by decide) (allPrinted_decimal _)
    · exact allPrinted_decimal _
  exact fun c hc => (hsigned _).append allPrinted_crlf c (List.mem_of_mem_take hc)

theorem allPrinted_storeTriplet (t : ℕ) : AllPrinted (storeTriplet t) := by
  have hsextet : ∀ v < 64, Printed (storeSextet v) := by decide
  intro c hc
  obtain ⟨j, -, rfl⟩ := List.mem_map.1 hc
  exact hsextet _ (Nat.and_lt_two_pow _ (show 0x3F < 2 ^ 6 by decide))

theorem allPrinted_encodeLine {src : Mem} {pos lineLength : ℕ} : ∀ {i : ℕ} {line : List UInt8},
    encodeLine src pos lineLength i = some line → AllPrinted line := by
  intro i
  induction hk : lineLength - i using Nat.strongRecOn generalizing i with
  | ind k ih =>
    intro line h
    rw [encodeLine] at h
    split_ifs at h with hi
    · simp only [Option.bind_eq_bind, Option.bind_eq_some_iff] at h
      obtain ⟨t, -, rest, hrest, heq⟩ := h
      cases heq
      exact (allPrinted_storeTriplet t).append (ih _ (by omega) rfl hrest)
    · cases h
      exact fun c hc => by cases hc

theorem allPrinted_encodeLines {src : Mem} {origSize : ℕ} : ∀ {pos : ℕ} {text : List UInt8},
    encodeLines src origSize pos = some text → AllPrinted text := by
  have hsize : ∀ n ≤ 45, Printed (UInt8.ofNat (n + uuencodeAddedVal)) := by decide
  intro pos
  induction hk : origSize - pos using Nat.strongRecOn generalizing pos with
  | ind k ih =>
    intro text h
    rw [encodeLines] at h
    split_ifs at h with hpos
    · simp only [Option.bind_eq_bind, Option.bind_eq_some_iff] at h
      obtain ⟨line, hline, rest, hrest, heq⟩ := h
      cases heq
      have hpositive : 0 < min (origSize - pos) lineDataLengthMax := by
        rw [lineDataLengthMax]
        omega
      exact AllPrinted.cons (hsize _ (Nat.min_le_right _ _))
        (((allPrinted_encodeLine hline).append allPrinted_crlf).append (ih _ (by omega) rfl hrest))
    · cases h
      exact fun c hc => by cases hc

/-- A block goes out in printed characters, whatever is in it. -/
theorem saysBlocks_printed : SaysBlocks E AllPrinted := by
  intro data n h text hn htext
  unfold blockToSend at htext
  rw [bind_ok (uninit_apply _ _ _)] at htext
  rcases henc : ispUuEncode data n with _ | ⟨len, enc⟩ <;> rw [henc] at htext
  · cases htext
  rcases hbs : (List.range n.toNat).mapM data with _ | bs <;> rw [hbs] at htext
  · cases htext
  have hlen : bs.length ≤ 900 := by
    rwa [length_of_mapM hbs, List.length_range]
  simp only [calcChecksum_of_le hlen] at htext
  have hsize := decimal_checksum_length hlen
  have htake : (decimal (checksum bs) ++ crlf).take 11 = decimal (checksum bs) ++ crlf :=
    List.take_of_length_le (by omega)
  rw [htake] at htext
  split_ifs at htext
  · cases htext
  · rw [pure_apply, take_overlay_overlay] at htext
    cases htext
    simp only [ispUuEncode, Option.bind_eq_bind, Option.bind_eq_some_iff] at henc
    obtain ⟨dest, hdest, heq⟩ := henc
    cases heq
    exact (allPrinted_encodeLines hdest).append ((allPrinted_decimal _).append allPrinted_crlf)

/-- The program sends no data as it is. -/
def Invocation.Encoded : Invocation → Prop
  | synchronize => True
  | isp cmd args => lookup ispCmdsList cmd = some .writeToRam → argMode (args.drop 2) ≠ 0
  | prog _ find _ cmd _ => lookup progCmdsList cmd = some .flash →
    ∀ id entry, find id = some entry → entry.desc.uuencode ≠ 0

section Says

variable {cmd : UInt8}

theorem saysTwo_printed (hcmd : Printed cmd) : SaysTwo (LeftOf AllPrinted) cmd :=
  fun _ _ => leftOf_self (allPrinted_twoArgsText hcmd _ _)

theorem saysAddress_printed (hcmd : Printed cmd) : SaysAddress (LeftOf AllPrinted) cmd :=
  fun _ _ _ => leftOf_self (allPrinted_addressText hcmd _ _ _)

theorem saysGo_printed : SaysGo (LeftOf AllPrinted) := fun _ =>
  ⟨leftOf_self (allPrinted_goText (by decide) _), leftOf_self (allPrinted_goText (by decide) _)⟩

theorem saysReads_printed : SaysReads (LeftOf AllPrinted) :=
  ⟨saysTwo_printed (by decide), leftOf_self (by decide), leftOf_self (by decide)⟩

theorem saysWrites_printed {uu : ℕ} {n : ℕ → Prop} (huu : uu ≠ 0) :
    SaysWrites E (LeftOf AllPrinted) uu n :=
  ⟨saysTwo_printed (by decide),
    fun _ data n h text hn ht => leftOf_self (saysBlocks_printed data n h text hn ht),
    fun h0 => absurd h0 huu⟩

theorem saysErases_printed : SaysErases (LeftOf AllPrinted) :=
  ⟨leftOf_self (by decide), saysTwo_printed (by decide), saysTwo_printed (by decide),
    saysTwo_printed (by decide)⟩

theorem saysIds_printed : SaysIds (LeftOf AllPrinted) :=
  ⟨leftOf_self (by decide), leftOf_self (by decide), leftOf_self (by decide)⟩

theorem saysConnect_printed (freq : UInt32) : SaysConnect (LeftOf AllPrinted) freq :=
  ⟨leftOf_self (by decide), leftOf_self (by decide), leftOf_self (allPrinted_freqText freq),
    leftOf_self (by decide)⟩

end Says

theorem Invocation.Encoded.spoken {invocation : Invocation} (henc : invocation.Encoded) :
    invocation.Says E (LeftOf AllPrinted) := by
  cases invocation with
  | synchronize => exact saysConnect_printed _
  | isp cmd args =>
    intro command hlookup
    cases command with
    | writeToRam => exact saysWrites_printed (henc hlookup)
    | unlock => exact leftOf_self (by decide)
    | readMemory => exact saysReads_printed
    | prepareForWrite => exact saysTwo_printed (by decide)
    | copyRamToFlash => exact saysAddress_printed (by decide)
    | go => exact saysGo_printed
    | erase => exact saysTwo_printed (by decide)
    | blankCheck => exact saysTwo_printed (by decide)
    | readPartId => exact leftOf_self (by decide)
    | readBootVersion => exact leftOf_self (by decide)
    | compare => exact saysAddress_printed (by decide)
    | readUid => exact leftOf_self (by decide)
  | prog freq find calcUserCode cmd args =>
    refine ⟨saysConnect_printed freq, leftOf_self (by decide), fun command id entry hlookup hfind => ?_⟩
    cases command with
    | dump => exact saysReads_printed
    | flash =>
      refine ⟨saysErases_printed, saysAddress_printed (by decide), saysWrites_printed fun h0 => ?_⟩
      exact henc hlookup id entry hfind (UInt32.toNat_inj.1 h0)
    | id => exact saysIds_printed
    | blank => exact saysErases_printed
    | go => exact ⟨saysReads_printed, leftOf_self (by decide), saysGo_printed⟩

/-- With its data encoded, a program offers the line nothing that software flow control would take
for its own, or a terminal for anything but text. -/
theorem Invocation.offers_printed {invocation : Invocation} (henc : invocation.Encoded) (E : Sys σ)
    (fuel : ℕ) (env : σ) (c : UInt8) (n m : ℕ) :
    Offered AllPrinted (final (invocation.run E.traced fuel (.start (env, []) c n m))).env := by
  intro text htext
  obtain ⟨message, hmessage, hsuffix⟩ := Invocation.onlySaid henc.spoken fuel env c n m text htext
  exact fun d hd => hmessage d (hsuffix.subset hd)

/-- The LPC1114 takes its data encoded. -/
theorem Invocation.offers_printed_flash :
    let invocation := Invocation.prog 10000 (fun _ => some ⟨0x2540102B, [], lpc1114⟩) 1
      (bytes ['f', 'l', 'a', 's', 'h']) [['f'.toUInt8]]
    let E := (bootloader lpc1114.sectorAt 1).sys
      ((Sys.plain (Wire Chip)).withFiles fun _ _ => some [.data zerosFile])
    Offered AllPrinted (final (invocation.run E.traced 200
      (.start (.quiet ⟨fun _ => 0, fun _ => 0, none⟩, []) 0 0 0))).env := by
  intro invocation E
  have henc : invocation.Encoded := by
    intro _ id entry hentry
    cases hentry
    decide
  exact Invocation.offers_printed henc E 200 _ 0 0 0

end Printed

section Looking

/-- The messages that open a session. -/
inductive Opens (freq : UInt32) : List UInt8 → Prop
  | start : Opens freq synchroStart
  | synchro : Opens freq synchro
  | freq : Opens freq (freqText freq)
  | echoOff : Opens freq synchroEchoOff

/-- The requests that leave the device as it is, and the acknowledgements of what it sends. -/
inductive Looks : List UInt8 → Prop
  | read (addr count : UInt32) : Looks (twoArgsText 'R'.toUInt8 addr.toNat count.toNat)
  | blankCheck (first last : UInt32) : Looks (twoArgsText 'I'.toUInt8 first.toNat last.toNat)
  | compare (addr1 addr2 count : UInt32) :
      Looks (addressText 'M'.toUInt8 addr1.toNat addr2.toNat count.toNat)
  | partId : Looks readPartId
  | uid : Looks readUid
  | bootVersion : Looks readBootVersion
  | ok : Looks dataBlockOk
  | resend : Looks dataBlockResend

/-- What is said by a program that does not change the device. -/
def Invocation.Harmless : Invocation → List UInt8 → Prop
  | synchronize => Opens ispCrystalFreq
  | isp _ _ => Looks
  | prog freq _ _ _ _ => fun text => Opens freq text ∨ Looks text

/-- The command is none of those that write, erase, prepare or unlock the flash or start a program. -/
def Invocation.OnlyLooks : Invocation → Prop
  | synchronize => True
  | isp cmd _ => ∀ command, lookup ispCmdsList cmd = some command →
    command ∈ [.readMemory, .blankCheck, .readPartId, .readBootVersion, .compare, .readUid]
  | prog _ _ _ cmd _ => ∀ command, lookup progCmdsList cmd = some command → command ∈ [.dump, .id]

section Says

variable (hlooks : ∀ text, Looks text → V text)

include hlooks

theorem saysReads_looks : SaysReads (LeftOf V) :=
  ⟨fun _ _ => leftOf_self (hlooks _ (.read _ _)), leftOf_self (hlooks _ .ok),
    leftOf_self (hlooks _ .resend)⟩

theorem saysIds_looks : SaysIds (LeftOf V) :=
  ⟨leftOf_self (hlooks _ .partId), leftOf_self (hlooks _ .uid), leftOf_self (hlooks _ .bootVersion)⟩

omit hlooks in
theorem saysConnect_opens {freq : UInt32} (hopens : ∀ text, Opens freq text → V text) :
    SaysConnect (LeftOf V) freq :=
  ⟨leftOf_self (hopens _ .start), leftOf_self (hopens _ .synchro), leftOf_self (hopens _ .freq),
    leftOf_self (hopens _ .echoOff)⟩

end Says

theorem Invocation.OnlyLooks.spoken {invocation : Invocation} (honly : invocation.OnlyLooks) :
    invocation.Says E (LeftOf invocation.Harmless) := by
  cases invocation with
  | synchronize => exact saysConnect_opens fun _ h => h
  | isp cmd args =>
    intro command hlookup
    have hmem := honly command hlookup
    cases command with
    | readMemory => exact saysReads_looks fun _ h => h
    | blankCheck => exact fun _ _ => leftOf_self (.blankCheck _ _)
    | readPartId => exact leftOf_self .partId
    | readBootVersion => exact leftOf_self .bootVersion
    | compare => exact fun _ _ _ => leftOf_self (.compare _ _ _)
    | readUid => exact leftOf_self .uid
    | _ => simp at hmem
  | prog freq find calcUserCode cmd args =>
    refine ⟨saysConnect_opens fun _ h => .inl h, leftOf_self (.inr .partId),
      fun command id entry hlookup _ => ?_⟩
    have hmem := honly command hlookup
    cases command with
    | dump => exact saysReads_looks fun _ h => .inr h
    | id => exact saysIds_looks fun _ h => .inr h
    | _ => simp at hmem

/-- A program that is started to look at the device never asks it for more, whatever it answers and
whenever. -/
theorem Invocation.offers_harmless {invocation : Invocation} (honly : invocation.OnlyLooks)
    (E : Sys σ) (fuel : ℕ) (env : σ) (c : UInt8) (n m : ℕ) :
    OnlySaid invocation.Harmless
      (final (invocation.run E.traced fuel (.start (env, []) c n m))).env :=
  Invocation.onlySaid honly.spoken fuel env c n m

/-- A dump, of a device that sends what it likes. -/
theorem Invocation.offers_harmless_dump :
    let invocation := Invocation.prog 10000 (fun _ => some ⟨0x2540102B, [], lpc1114⟩) 1
      (bytes ['d', 'u', 'm', 'p']) [['f'.toUInt8]]
    let E := (scripted fun _ => 1).sys (Sys.plain _)
    OnlySaid invocation.Harmless (final (invocation.run E.traced 200
      (.start (.quiet (opening ++ [statusText 0]), []) 0 0 0))).env := by
  intro invocation E
  have honly : invocation.OnlyLooks := by
    intro command hlookup
    cases hlookup
    decide
  exact Invocation.offers_harmless honly E 200 _ 0 0 0

end Looking

end LpcTools
