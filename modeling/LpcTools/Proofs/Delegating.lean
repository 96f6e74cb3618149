import LpcTools.Proofs.MirrorTools
import LpcTools.Proofs.Session

/-!
# A command in an open session

What is neither a message of the connection nor a request for what the device is goes through to the
device, which answers as it does on a line without a boot ROM. So a command that says nothing else has
the run that it has there.
-/

namespace LpcTools

open Run Decimal Uuencode

/-- The same system over states that it does not look at. -/
def Sys.over (O : Sys Unit) (σ : Type) : Sys σ :=
  { Sys.plain σ with
    stack := fun _ => O.stack ()
    beyond := fun _ => O.beyond ()
    malloc := fun _ => O.malloc ()
    openInput := fun _ => O.openInput ()
    stdin := fun _ => O.stdin ()
    openOutput := fun _ => O.openOutput ()
    save := fun _ => O.save ()
    traceOn := O.traceOn
    save_le := O.save_le }

variable {δ : Type} {L : Line δ} {id : Identity} {O : Sys Unit}

/-- The line with its device behind an open session. -/
def Wire.inSession (w : Wire δ) : Wire (Session δ) := ⟨.ready w.dev, w.pending, w.polls, w.heard⟩

theorem wrote_inSession (w : Wire δ) {text : List UInt8} (htext : Delegated text) :
    (L.session id).wrote w.inSession text = (L.wrote w text).inSession := by
  have hhear := session_delegated L id w.dev htext
  simp only [Line.wrote, Wire.inSession, hhear]
  rfl

theorem session_mirrors (L : Line δ) (id : Identity) (O : Sys Unit) :
    Mirrors (L.sys (O.over _)) ((L.session id).sys (O.over _)) (fun w s => s = w.inSession)
      Delegated where
  read := by
    rintro w _ n r w' rfl hread
    simp only [Line.sys] at hread ⊢
    have hfront : (L.session id).front w.inSession = L.front w := rfl
    rw [hfront]
    split_ifs at hread ⊢ with hnone
    · cases hread
      exact ⟨_, rfl, rfl⟩
    · cases hread
      exact ⟨_, rfl, rfl⟩
  write := by
    rintro w _ text r w' rfl htext hwrite
    cases hwrite
    exact ⟨_, rfl, wrote_inSession w htext⟩
  suffix := by
    intro w text n w' _ hwrite hlt
    cases hwrite
    exact absurd hlt (Nat.lt_irrefl _)
  stack := fun _ => rfl
  beyond := fun _ => rfl
  malloc := fun _ => rfl
  openInput := fun _ => rfl
  stdin := fun _ => rfl
  openOutput := fun _ => rfl
  save := fun _ => rfl
  traceOn := rfl

section Texts

/-- Nothing that the boot ROM takes for itself is as long as that. -/
theorem delegated_of_length {text : List UInt8} (h : 6 ≤ text.length) : Delegated text := by
  intro hmem
  simp only [List.mem_cons, List.not_mem_nil, or_false] at hmem
  rcases hmem with rfl | rfl | rfl | rfl | rfl <;> exact absurd h (by decide)

/-- The letters with which it does not start. -/
def Free (c : UInt8) : Prop :=
  c ∉ ['?'.toUInt8, 'A'.toUInt8, 'J'.toUInt8, 'N'.toUInt8, 'K'.toUInt8]

instance : DecidablePred Free := fun c => inferInstanceAs (Decidable (c ∉ _))

theorem delegated_cons {c : UInt8} (hc : Free c) (text : List UInt8) : Delegated (c :: text) := by
  intro hmem
  have hhead : some c ∈ ['?'.toUInt8, 'A'.toUInt8, 'J'.toUInt8, 'N'.toUInt8, 'K'.toUInt8].map some :=
    List.mem_map_of_mem (f := List.head?) hmem
  exact hc ((List.mem_map_of_injective (Option.some_injective _)).1 hhead)

/-- A block is longer, but for that of no bytes, which starts with a digit. -/
theorem Carries.delegated {text bs : List UInt8} (h : Carries text bs) : Delegated text := by
  obtain ⟨enc, rfl, henc, -⟩ := h
  rcases bs with _ | ⟨b, bs⟩
  · obtain rfl : enc = [] := List.eq_nil_of_length_eq_zero henc
    exact delegated_cons (show Free '0'.toUInt8 by decide) _
  · refine delegated_of_length ?_
    rw [List.length_append, henc, List.length_cons, textLength]
    omega

theorem saysTwo_delegated {cmd : UInt8} (hcmd : Free cmd) : SaysTwo Delegated cmd :=
  fun _ _ => delegated_cons hcmd _

theorem saysAddress_delegated {cmd : UInt8} (hcmd : Free cmd) : SaysAddress Delegated cmd :=
  fun _ _ _ => delegated_cons hcmd _

theorem saysBlocks_delegated {σ : Type} (E : Sys σ) : SaysBlocks E Delegated := by
  intro data n h text hn htext
  have hdata (i : ℕ) (c : UInt8) (hc : data i = some c) : (data i).getD 0 = c := by
    rw [hc]
    rfl
  rcases blockToSend_part (E := E) hdata n h with heq | ⟨herror, -⟩
  · obtain ⟨text', htext', -, hcarries⟩ := blockToSend_total (E := E) (fun i => (data i).getD 0) hn h
    rw [heq, htext'] at htext
    cases htext
    exact hcarries.delegated
  · rw [herror] at htext
    cases htext

theorem saysWrites_delegated {σ : Type} (E : Sys σ) {uu : ℕ} {n : ℕ → Prop} (hn : ∀ k, n k → 6 ≤ k) :
    SaysWrites E Delegated uu n :=
  ⟨saysTwo_delegated (by decide), fun _ => saysBlocks_delegated E,
    fun _ _ hbs => delegated_of_length (hn _ hbs)⟩

theorem saysReads_delegated : SaysReads Delegated :=
  ⟨saysTwo_delegated (by decide), delegated_cons (by decide) _, delegated_cons (by decide) _⟩

theorem saysErases_delegated : SaysErases Delegated :=
  ⟨delegated_cons (by decide) _, saysTwo_delegated (by decide), saysTwo_delegated (by decide),
    saysTwo_delegated (by decide)⟩

end Texts

/-- The host as it would be on the bare line. -/
def Line.Stands.bare (h : Host (Wire (Session δ))) (d : δ) : Host (Wire δ) :=
  ⟨⟨d, [], h.env.polls, h.env.heard⟩, 0, 0, 0, h.log⟩

theorem Line.Stands.twin {h : Host (Wire (Session δ))} {d : δ} (hs : Line.Stands h (.ready d) []) :
    Twin (fun w s => s = w.inSession) (Line.Stands.bare h d) h := by
  refine ⟨?_, hs.nextReadChar.symm, hs.request.symm, hs.requested.symm, rfl⟩
  have hpend := hs.pending
  have hdev := hs.dev
  obtain ⟨⟨dev, pending, polls, heard⟩, _, _, _, _⟩ := h
  change dev = _ at hdev
  change pending = [] at hpend
  rw [hdev, hpend]
  rfl

end LpcTools
