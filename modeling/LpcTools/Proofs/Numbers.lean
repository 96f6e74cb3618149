import LpcTools.Proofs.Requests
import Mathlib.Data.Nat.Count

/-!
# Numbers behind a status

The part id, the boot version and the unique id come as numbers behind the status, in a reply that may
be cut anywhere and is shorter than what the host waits for. It reads until it has run out of patience,
and then has all of them.
-/

namespace LpcTools

open Run Decimal Uuencode

namespace Line

/-- Before as many polls as there are pieces have found something, `vain` at most have not. -/
def Within (arrive : ℕ → ℕ) (t pieces vain : ℕ) : Prop :=
  ∀ j, Nat.count (fun i => 0 < arrive (t + i)) j < pieces →
    j ≤ Nat.count (fun i => 0 < arrive (t + i)) j + vain

/-- Whenever that many pieces are waiting, the host has patience enough for them. -/
def Timely (arrive : ℕ → ℕ) (pieces : ℕ) : Prop := ∀ t, Within arrive t pieces 100

variable {arrive : ℕ → ℕ} {t n n' vain : ℕ}

theorem Within.mono (h : Within arrive t n vain) (hle : n' ≤ n) : Within arrive t n' vain :=
  fun j hj => h j (Nat.lt_of_lt_of_le hj hle)

theorem count_shift (j : ℕ) : Nat.count (fun i => 0 < arrive (t + i)) (j + 1) =
    Nat.count (fun i => 0 < arrive (t + 1 + i)) j + if 0 < arrive t then 1 else 0 := by
  rw [Nat.count_succ']
  simp only [Nat.add_zero, Nat.add_assoc, Nat.add_comm 1]

theorem Within.find (h : Within arrive t (n + 1) vain) (h0 : 0 < arrive t) :
    Within arrive (t + 1) n vain := by
  intro j hj
  have := h (j + 1)
  rw [count_shift, if_pos h0] at this
  have := this (by omega)
  omega

theorem Within.vain_pos (h : Within arrive t (n + 1) vain) (h0 : arrive t = 0) : 0 < vain := by
  have := h (0 + 1)
  rw [count_shift, if_neg (by omega), Nat.count_zero] at this
  have := this (by omega)
  omega

theorem Within.wait (h : Within arrive t n (vain + 1)) (h0 : arrive t = 0) :
    Within arrive (t + 1) n vain := by
  intro j hj
  have := h (j + 1)
  rw [count_shift, if_neg (by omega)] at this
  have := this (by omega)
  omega

theorem Timely.prompt (h : Timely arrive (n + 1)) : Prompt arrive := by
  intro t
  by_contra hno
  have hnone : Nat.count (fun i => 0 < arrive (t + i)) 101 = 0 := by
    rw [Nat.count_eq_card_filter_range, Finset.card_eq_zero, Finset.filter_eq_empty_iff]
    intro j hj hpos
    exact hno ⟨j, Nat.le_of_lt_succ (Finset.mem_range.1 hj), hpos⟩
  have := h t 101
  rw [hnone] at this
  have := this (Nat.succ_pos n)
  omega

theorem timely_of_eager (h : ∀ t, 0 < arrive t) (n : ℕ) : Timely arrive n := by
  intro t j _
  have : Nat.count (fun i => 0 < arrive (t + i)) j = j := by
    rw [Nat.count_eq_card_filter_range, Finset.filter_true_of_mem fun i _ => h _, Finset.card_range]
  omega

variable {δ : Type} {L : Line δ} {O : Sys (Wire δ)} {h : Host (Wire δ)} {m : ℕ}

/-- No piece that waits is empty. -/
def Solid (w : Wire δ) : Prop := ∀ c ∈ w.pending, c ≠ []

theorem Solid.pending_eq_nil {w : Wire δ} (hs : Solid w) (hun : w.unread = []) : w.pending = [] := by
  rcases hw : w.pending with _ | ⟨c, cs⟩
  · rfl
  · rw [Wire.unread, hw, List.flatten_cons, List.append_eq_nil_iff] at hun
    exact absurd hun.1 (hs c (by rw [hw]; exact List.mem_cons_self))

/-- Nothing has arrived where no piece waits, or none has come yet. -/
theorem Solid.front_eq_nil {w : Wire δ} (hs : Solid w) (hf : L.front w = []) :
    w.pending = [] ∨ L.arrive w.polls = 0 := by
  rcases hw : w.pending with _ | ⟨c, cs⟩
  · exact .inl rfl
  · right
    by_contra hpos
    have hpre := front_of_pos (L := L) hw (Nat.pos_of_ne_zero hpos)
    rw [hf, List.prefix_nil] at hpre
    exact hs c (by rw [hw]; exact List.mem_cons_self) hpre

/-- What is left of a piece is not empty either. -/
theorem Solid.took {w : Wire δ} (hs : Solid w) (n : ℕ) : Solid (L.took w n) := by
  intro c hc
  rw [Line.took, List.mem_append] at hc
  rcases hc with hc | hc
  · unfold rest at hc
    split_ifs at hc with hnil
    · cases hc
    · rw [List.mem_singleton.1 hc]
      exact hnil
  · exact hs c (List.mem_of_mem_drop hc)

theorem took_pending {w : Wire δ} (hn : (L.front w).length ≤ n) :
    (L.took w n).pending = w.pending.drop (L.arrive w.polls) := by
  rw [took, rest_of_length_le hn, List.nil_append]

/-- A read that waits for no less than there is takes all of it. -/
theorem readLoop_drains (hmn : m ≤ n) (l : ReadLocals) (h : Host (Wire δ)) :
    Solid h.env → Within L.arrive h.env.polls h.env.pending.length (100 - l.loops) →
    l.got.length < m → l.got.length + h.env.unread.length ≤ m → ∃ h',
      (serialReadLoop (L.sys O) n m).run l h =
        .ok (toInt (l.got ++ h.env.unread).length, l.got ++ h.env.unread) h' ∧
      Read h h.env.unread.length h' ∧ h'.env.pending = [] := by
  induction l, h using (serialReadLoop (L.sys O) n m).run_induction with
  | step l h ih =>
    intro hs hin hlt hle
    have hbody := readTurn (L := L) (O := O) (n := n) (m := m) l h
    by_cases hf : L.front h.env = []
    · rw [if_pos hf] at hbody
      by_cases hpend : h.env.pending = []
      · have hun : h.env.unread = [] := by rw [Wire.unread, hpend, List.flatten_nil]
        by_cases hloops : 100 < l.loops
        · rw [if_pos hloops] at hbody
          rw [hun, List.append_nil]
          exact ⟨_, Loop.run_inr hbody, ((Read.refl h).poll).emit _, hpend⟩
        · rw [if_neg hloops, ReadLocals.test, if_pos hlt] at hbody
          obtain ⟨h', hrun, hR, hnil⟩ := ih _ _ hbody hs (by
            change Within _ _ h.env.pending.length _
            rw [hpend]
            exact fun j hj => absurd hj (Nat.not_lt_zero _)) hlt hle
          have hR₀ := ((Read.refl h).poll).trans hR
          rw [Nat.zero_add] at hR₀
          exact ⟨h', (Loop.run_inl hbody).trans hrun, hR₀, hnil⟩
      · have h0 := (hs.front_eq_nil hf).resolve_left hpend
        obtain ⟨k, hk⟩ := Nat.exists_eq_succ_of_ne_zero (mt List.length_eq_zero_iff.1 hpend)
        have hvain := Within.vain_pos (hk ▸ hin) h0
        rw [if_neg (by omega), ReadLocals.test, if_pos hlt] at hbody
        obtain ⟨h', hrun, hR, hnil⟩ := ih _ _ hbody hs (by
          refine Within.wait ?_ h0
          rwa [show 100 - (l.loops + 1) + 1 = 100 - l.loops by omega]) hlt hle
        have hR₀ := ((Read.refl h).poll).trans hR
        rw [Nat.zero_add] at hR₀
        exact ⟨h', (Loop.run_inl hbody).trans hrun, hR₀, hnil⟩
    · have hpre := (front_unread (L := L) h.env).length_le
      have hfit : (L.front h.env).length ≤ n - l.got.length := by omega
      have htake : (L.front h.env).take (n - l.got.length) = L.front h.env :=
        List.take_of_length_le hfit
      have hpos : 0 < L.arrive h.env.polls := by
        refine Nat.pos_of_ne_zero fun h0 => hf ?_
        rw [front, h0, List.take_zero, List.flatten_nil]
      have hpend := took_pending (L := L) (w := h.env) hfit
      have hun := unread_took (L := L) h.env (n - l.got.length)
      rw [htake] at hun
      have hsplit : L.front h.env ++ (L.took h.env (n - l.got.length)).unread = h.env.unread := by
        rw [hun]
        exact (List.prefix_iff_eq_append.1 (front_unread h.env))
      have hs' : Solid (L.took h.env (n - l.got.length)) := hs.took _
      have hR := (Read.refl h).took (L := L) (n - l.got.length)
      rw [htake, Nat.zero_add] at hR
      rw [if_neg hf, htake, if_neg hf, ReadLocals.test] at hbody
      have hlen := congrArg List.length hsplit
      rw [List.length_append] at hlen
      by_cases hmore : (l.got ++ L.front h.env).length < m
      · rw [if_pos hmore] at hbody
        rw [List.length_append] at hmore
        obtain ⟨h', hrun, hR', hnil⟩ := ih _ _ hbody hs' (by
          obtain ⟨k, hk⟩ : ∃ k, h.env.pending.length = k + 1 := by
            refine Nat.exists_eq_succ_of_ne_zero fun h0 => hf ?_
            rw [front, List.length_eq_zero_iff.1 h0, List.take_nil, List.flatten_nil]
          rw [hk] at hin
          refine (hin.find hpos).mono ?_
          rw [hpend, List.length_drop]
          omega) (by rw [List.length_append]; exact hmore)
          (by simp only [List.length_append]; omega)
        rw [List.append_assoc, hsplit] at hrun
        have hR'' := hR.trans hR'
        rw [hlen] at hR''
        exact ⟨h', (Loop.run_inl hbody).trans hrun, hR'', hnil⟩
      · rw [if_neg hmore] at hbody
        rw [List.length_append] at hmore
        have hnone : (L.took h.env (n - l.got.length)).unread = [] :=
          List.length_eq_zero_iff.1 (by omega)
        rw [hnone, List.append_nil] at hsplit
        refine ⟨_, (Loop.run_inr hbody).trans (by rw [hsplit]), ?_, hs'.pending_eq_nil hnone⟩
        rw [← hsplit]
        exact hR

theorem ispSerialRead_drains (hpos : 0 < m) (hmn : m ≤ n) (h0 : h.nextReadChar = 0)
    (hs : Solid h.env) (hin : Within L.arrive h.env.polls h.env.pending.length 100)
    (hle : h.env.unread.length ≤ m) : ∃ h',
    ispSerialRead (L.sys O) n m h = .ok (toInt h.env.unread.length, h.env.unread) h' ∧
      Read h h.env.unread.length h' ∧ h'.env.pending = [] := by
  unfold ispSerialRead
  rw [if_neg (Nat.not_lt.2 hmn), if_pos h0]
  exact readLoop_drains hmn ⟨[], 0⟩ h hs hin hpos (by rwa [List.length_nil, Nat.zero_add])

end Line

/-- Numbers as they are sent, each on a line of its own. -/
def numbersText (ns : List ℕ) : List UInt8 := ns.flatMap statusText

theorem isSpace_of_mem_crlf : ∀ c ∈ crlf, isSpace c = true := by
  intro c hc
  rcases List.mem_pair.1 hc with rfl | rfl <;> rfl

theorem readNumbers_numbersText : ∀ {ns : List ℕ} {ws : List UInt8} (tail : List UInt8),
    (∀ c ∈ ws, isSpace c = true) → (∀ n ∈ ns, n ≤ ulongMax) →
    readNumbers ns.length (ws ++ (numbersText ns ++ tail)) = some ns
  | [], _, _, _, _ => rfl
  | n :: ns, ws, tail, hws, hns => by
    have hread := strtoul_decimal hws (hns n List.mem_cons_self) (show Stops '\r'.toUInt8 by decide)
      ('\n'.toUInt8 :: (numbersText ns ++ tail))
    have hmore := readNumbers_numbersText tail isSpace_of_mem_crlf
      fun k hk => hns k (List.mem_cons_of_mem n hk)
    have htext : ws ++ (numbersText (n :: ns) ++ tail) =
        ws ++ (decimal n ++ '\r'.toUInt8 :: '\n'.toUInt8 :: (numbersText ns ++ tail)) := by
      rw [numbersText, List.flatMap_cons, statusText, List.append_assoc, List.append_assoc]
      rfl
    rw [htext, List.length_cons, readNumbers, hread]
    simp only [Option.bind_eq_bind, Option.bind_some]
    change (readNumbers ns.length (crlf ++ (numbersText ns ++ tail))).bind _ = _
    rw [hmore]
    rfl

theorem length_numbersText_pos {ns : List ℕ} (hne : ns ≠ []) : 0 < (numbersText ns).length := by
  rcases ns with _ | ⟨n, ns⟩
  · exact absurd rfl hne
  · have := decimal_length_pos n
    simp only [numbersText, List.flatMap_cons, statusText, List.length_append]
    omega

theorem length_numbersText_le {w : ℕ} : ∀ {ns : List ℕ}, (∀ n ∈ ns, n < 10 ^ w) → 0 < w →
    (numbersText ns).length ≤ (w + 2) * ns.length
  | [], _, _ => Nat.zero_le _
  | n :: ns, hns, hw => by
    have hn := decimal_length_le (w - 1) n (by rw [Nat.sub_add_cancel hw]; exact hns n List.mem_cons_self)
    have hmore := length_numbersText_le (fun k hk => hns k (List.mem_cons_of_mem n hk)) hw
    simp only [numbersText, List.flatMap_cons, statusText, List.length_append, List.length_cons,
      show crlf.length = 2 from rfl, Nat.mul_succ] at hmore ⊢
    omega

section Reply

variable {δ : Type} {L : Line δ} {O : Sys (Wire δ)} {h : Host (Wire δ)}

/-- However the numbers of a reply are cut, and whenever the pieces come while the host waits, they are
read as they were sent, and nothing of the reply is left. -/
theorem readReply_sent (O : Sys (Wire δ)) (h0 : h.nextReadChar = 0) (hpend : h.env.pending = [])
    {cmd : List UInt8} (hcmd : cmd.length < 2 ^ 31) {ns : List ℕ} (hne : ns ≠ [])
    (hns : ∀ n ∈ ns, n ≤ ulongMax) {pieces : List (List UInt8)} {d : δ}
    (hhear : L.hear h.env.dev cmd = (statusText 0 :: pieces, d)) (hsolid : ∀ c ∈ pieces, c ≠ [])
    (htext : pieces.flatten = numbersText ns) {m : ℕ} (hlen : (numbersText ns).length ≤ m)
    (hm : m ≤ repBufsize) (htime : Line.Timely L.arrive (pieces.length + 1)) (quiet : ℤ)
    (value : List ℕ → ℤ) : ∃ h',
    readReply (L.sys O) cmd quiet m ns.length value h = .ok (value ns) h' ∧
      h'.env.dev = d ∧ h'.env.pending = [] ∧ h'.nextReadChar = 0 ∧
      h'.resendRequestForBlock = h.resendRequestForBlock ∧
      h'.resendRequestedForBlock = h.resendRequestedForBlock := by
  obtain ⟨k, h₁, es, hsend, hR, hpend₁, -, -⟩ := sendRequest_piece (O := O)
    ((List.range 5).map ((L.sys O).stack h.env)) (-5) (-4) quiet pieces htime.prompt h0 hpend hhear
    hcmd (by decide)
  have hpos := length_numbersText_pos hne
  have hdev : h₁.env.dev = d := by rw [hR.dev, Line.told, Line.wrote, hhear]
  have hun : h₁.env.unread = numbersText ns := by
    rw [Wire.unread, hpend₁, List.flatten_append, flatten_rest, List.drop_zero, ← List.flatten_append,
      List.take_append_drop, htext]
  have hsolid₁ : Line.Solid h₁.env := by
    intro c hc
    rw [hpend₁, List.mem_append] at hc
    rcases hc with hc | hc
    · unfold rest at hc
      split_ifs at hc with hnil
      · cases hc
      · rw [List.mem_singleton.1 hc]
        exact hnil
    · exact hsolid c (List.mem_of_mem_drop hc)
  have hshort : h₁.env.pending.length ≤ pieces.length + 1 := by
    rw [hpend₁, List.length_append, List.length_drop]
    have : (rest (pieces.take k).flatten 0).length ≤ 1 := by
      unfold rest
      split_ifs <;> simp
    omega
  obtain ⟨h₂, hread, hR₂, hnil⟩ := Line.ispSerialRead_drains (L := L) (O := O) (n := repBufsize)
    (h := h₁) (Nat.lt_of_lt_of_le hpos hlen) hm (hR.nextReadChar.trans h0) hsolid₁
    ((htime _).mono hshort) (by rwa [hun])
  rw [hun] at hread
  refine ⟨h₂.emit (.replied (0 < toInt (numbersText ns).length)), ?_, hR₂.dev.trans hdev, hnil,
    hR₂.nextReadChar.trans (hR.nextReadChar.trans h0), hR₂.request.trans hR.request,
    hR₂.requested.trans hR.requested⟩
  have hint : ¬ toInt (numbersText ns).length ≤ 0 := by
    have : (numbersText ns).length < 2 ^ 31 := by
      rw [repBufsize] at hm
      omega
    rw [toInt_of_lt this]
    omega
  have hnumbers : readNumbers ns.length (overlay ((List.range repBufsize).map
      ((L.sys O).stack h.env)) 0 (numbersText ns)) = some ns := by
    rw [overlay_zero]
    exact readNumbers_numbersText _ (List.forall_mem_nil _) hns
  unfold readReply ispSendCmdNoArgs readMore
  rw [bind_ok (uninit_apply _ _ _), bind_ok (bind_ok (uninit_apply _ _ _) |>.trans (map_ok hsend)),
    if_neg (by decide), bind_ok (bind_ok hread |>.trans (bind_ok (emit_apply _ _)))]
  simp only [if_neg hint, hnumbers]
  rfl

end Reply

end LpcTools
