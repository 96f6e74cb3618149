import LpcTools.Proofs.Sending

/-!
# Sending to a device that accepts or refuses each block

A reply is read with a minimum of four characters, which is all of an acceptance and half of a
refusal. Delivered whole, every reply is the answer to the block before it. Cut, a refusal can leave
its end on the line, and the host then takes that for the answer to the next transmission.
-/

namespace LpcTools

open Run Decimal Uuencode

def blockReply (accepted : Bool) : List UInt8 := if accepted then dataBlockOk else dataBlockResend

/-- A device that grants the command it hears first and answers the `k`-th block it hears with
`answers k`. `cut` says in which pieces. -/
def blockLine (cut : List UInt8 → List (List UInt8)) (answers : ℕ → Bool) (arrive : ℕ → ℕ) :
    Line ℕ where
  hear := fun n _ => (cut (if n = 0 then statusText 0 else blockReply (answers (n - 1))), n + 1)
  arrive := arrive

/-- How many of the first `k` blocks heard were accepted. -/
def acceptedBefore (answers : ℕ → Bool) (k : ℕ) : ℕ := (List.range k).countP answers

theorem Codes.decisions_eq {es : List Event} (hes : Codes es) (text : List UInt8)
    (answer : Answer) : decisions (es ++ [.request text answer]) = [] := by
  refine List.filterMap_eq_nil_iff.2 fun e he => ?_
  rcases List.mem_append.1 he with he | he
  · obtain ⟨code, name, rfl⟩ := hes e he
    rfl
  · rw [List.mem_singleton.1 he]

theorem blockReply_length (accepted : Bool) :
    4 ≤ (blockReply accepted).length ∧ (blockReply accepted).length ≤ 8 := by
  unfold blockReply
  split_ifs <;> decide

theorem blockReply_take (accepted : Bool) :
    decide ((blockReply accepted).take 4 = dataBlockOk) = accepted := by
  rcases accepted <;> decide

theorem count_map_range (answers : ℕ → Bool) (n : ℕ) :
    ((List.range n).map answers).count true = acceptedBefore answers n := by
  rw [acceptedBefore, List.count, List.countP_map]
  congr 1
  funext k
  simp

/-- The turn of an exchange with nothing left on the line and the reply delivered whole. -/
theorem exchange_whole {δ : Type} {L : Line δ} {O : Sys (Wire δ)} {h : Host (Wire δ)}
    {text : List UInt8} {accepted : Bool} {d : δ} {ds : List Bool}
    {W : List Bool → Host (Wire δ) → Prop} {bad : Host (Wire δ) → Prop} (hp : Line.Prompt L.arrive)
    (hnext : h.nextReadChar = 0) (hpending : h.env.pending = [])
    (hhear : L.hear h.env.dev text = ([blockReply accepted], d))
    (hW : ∀ h₁, Line.Read (L.told h text) (blockReply accepted).length h₁ → h₁.env.pending = [] →
      h₁.env.dev = d → W (ds ++ [accepted]) h₁) : ∃ k h₁,
    ispSerialRead (L.sys O) repBufsize 4 (L.told h text) =
      .ok (toInt k, (L.stream h.env text).take k) h₁ ∧
    k ≤ repBufsize ∧ h₁.env.heard = (L.told h text).env.heard ∧
    (bad h₁ ∨ 4 ≤ k ∧ k ≤ (L.stream h.env text).length ∧
      W (ds ++ [decide ((L.stream h.env text).take 4 = dataBlockOk)]) h₁) := by
  set reply := blockReply accepted with hr
  have hstream : L.stream h.env text = reply := by
    rw [Line.stream, hhear, Wire.unread, hpending]
    simp
  have hpend : (L.told h text).env.pending = [reply] := by
    rw [Line.told, Line.wrote, hhear, hpending]
    rfl
  obtain ⟨h4, h8⟩ : 4 ≤ reply.length ∧ reply.length ≤ 8 := blockReply_length _
  have hroom : reply.length ≤ repBufsize := by rw [repBufsize]; omega
  obtain ⟨h₁, hread, hR, hpend₁, -⟩ := Line.ispSerialRead_whole (L := L) (O := O)
    (h := L.told h text) hp (by decide) (show 4 ≤ repBufsize by decide) hnext hpend h4
  rw [List.take_of_length_le hroom] at hread hR
  refine ⟨reply.length, h₁, hread.trans (by rw [hstream, List.take_length]), hroom, hR.heard,
    .inr ⟨h4, by rw [hstream], ?_⟩⟩
  rw [hstream, hr, blockReply_take]
  exact hW h₁ hR (by rw [hpend₁, rest_of_length_le hroom])
    (by rw [hR.dev, Line.told, Line.wrote, hhear])

section Whole

variable {O : Sys (Wire ℕ)} {arrive : ℕ → ℕ} {answers : ℕ → Bool} {m : ℕ → UInt8} {count : UInt32}

/-- Between two exchanges with nothing left on the line. -/
structure InStep (answers : ℕ → Bool) (ds : List Bool) (h : Host (Wire ℕ)) : Prop where
  nextReadChar : h.nextReadChar = 0
  pending : h.env.pending = []
  dev : h.env.dev = ds.length + 1
  ds : ds = (List.range ds.length).map answers

theorem exchanges_whole (hp : Line.Prompt arrive) :
    Exchanges (blockLine whole answers arrive) O m count.toNat (InStep answers) fun _ => False where
  bad_of_grows := fun _ hbad => hbad
  of_env := by
    intro ds h h' hW henv hnext
    exact ⟨hnext.trans hW.nextReadChar, henv ▸ hW.pending, henv ▸ hW.dev, hW.ds⟩
  turn := by
    intro ds h text hW hlt hc
    have hhear : (blockLine whole answers arrive).hear h.env.dev text =
        ([blockReply (answers ds.length)], ds.length + 2) := by
      rw [blockLine, hW.dev]
      rfl
    refine exchange_whole hp hW.nextReadChar hW.pending hhear fun h₁ hR hpend hdev => ⟨?_, hpend, ?_, ?_⟩
    · exact hR.nextReadChar.trans hW.nextReadChar
    · rw [hdev, List.length_append, List.length_singleton]
    · rw [List.length_append, List.length_singleton, List.range_succ, List.map_append, ← hW.ds]
      rfl

end Whole

/-- What the request for a transfer leaves when the device grants it. -/
theorem grant_whole {O : Sys (Wire ℕ)} {arrive : ℕ → ℕ} (hp : Line.Prompt arrive)
    (answers : ℕ → Bool) (addr count : UInt32) (c c' : ℕ) : ∃ h' request,
    ispSendCmdTwoArgs ((blockLine whole answers arrive).sys O) 'W'.toUInt8 addr count
      (.start (.quiet 0) 0 c c') = .ok 0 h' ∧
    InStep answers [] h' ∧ decisions h'.log = [] ∧ h'.env.heard.map Prod.fst = [request] := by
  obtain ⟨buf, heq⟩ := ispSendCmdTwoArgs_eq (E := (blockLine whole answers arrive).sys O)
    'W'.toUInt8 addr count (.start (.quiet 0) 0 c c')
  have hlen := twoArgsText_length 'W'.toUInt8 addr count
  obtain ⟨h', es, hsend, h0, hpend, hdev, hheard, hes, hlog⟩ := sendRequest_whole
    (L := blockLine whole answers arrive) (O := O) (d := 1) (s := 0) buf (-5) (-4) 0
    (h := .start (.quiet 0) 0 c c') hp rfl rfl rfl (Nat.lt_of_le_of_lt hlen (by decide)) (by decide)
  refine ⟨h', twoArgsText 'W'.toUInt8 addr.toNat count.toNat, heq.trans (map_ok hsend),
    ⟨h0, hpend, hdev, rfl⟩, ?_, ?_⟩
  · rw [hlog, decisions_append, hes.decisions_eq]
    rfl
  · rw [hheard]
    rfl

theorem acceptedBefore_succ (answers : ℕ → Bool) (n : ℕ) : acceptedBefore answers (n + 1) =
    acceptedBefore answers n + if answers n then 1 else 0 := by
  rw [acceptedBefore, List.range_succ, List.countP_append, List.countP_singleton]
  rfl

/-- A transmission after an acceptance carries a later block. -/
theorem acceptedBefore_lt {answers : ℕ → Bool} {j k : ℕ} (hjk : j < k) (hj : answers j = true) :
    acceptedBefore answers j < acceptedBefore answers k := by
  have hsucc := acceptedBefore_succ answers j
  rw [if_pos hj] at hsucc
  have hle : acceptedBefore answers (j + 1) ≤ acceptedBefore answers k :=
    (List.range_sublist.2 hjk).countP_le
  omega

/-- The blocks that are accepted are the data from its start on. -/
theorem accepted_blocks (m : ℕ → UInt8) (count : ℕ) (answers : ℕ → Bool) : ∀ n,
    ((List.range n).filter answers).flatMap (fun k => block m count (acceptedBefore answers k)) =
      slice m 0 (min (900 * acceptedBefore answers n) count)
  | 0 => by simp [acceptedBefore, slice]
  | n + 1 => by
    have ih := accepted_blocks m count answers n
    rw [List.range_succ, List.filter_append, List.flatMap_append, ih, acceptedBefore_succ]
    by_cases hn : answers n = true
    · have hlast : [n].filter answers = [n] := List.filter_eq_self.2 (by simpa using hn)
      rw [hlast, if_pos hn, ← slice_block]
      simp
    · have hlast : [n].filter answers = [] := List.filter_eq_nil_iff.2 (by simpa using hn)
      rw [hlast, if_neg hn]
      simp

section Cut

/-- The exchanges so far, where `lefts` are the bytes unread when each block was written and `now`
those unread at the end. The replies are read four characters or more at a time. -/
inductive Exchange (answers : ℕ → Bool) : List Bool → List (List UInt8) → List UInt8 → Prop
  | start : Exchange answers [] [] []
  | turn {ds lefts now} (k : ℕ) : Exchange answers ds lefts now → 4 ≤ k →
      Exchange answers
        (ds ++ [decide ((now ++ blockReply (answers ds.length)).take 4 = dataBlockOk)])
        (lefts ++ [now]) ((now ++ blockReply (answers ds.length)).drop k)

variable {answers : ℕ → Bool} {ds : List Bool} {lefts : List (List UInt8)} {now : List UInt8}

theorem Exchange.length (hx : Exchange answers ds lefts now) : lefts.length = ds.length := by
  induction hx with
  | start => rfl
  | turn k hx hk ih => rw [List.length_append, List.length_append, ih]; rfl

/-- No refusal has the letter an acceptance starts with. -/
theorem not_mem_resend : (79 : UInt8) ∉ dataBlockResend := by decide

theorem take_accepted (hnow : 79 ∉ now) :
    decide ((now ++ dataBlockOk).take 4 = dataBlockOk) = true ↔ now = [] := by
  rw [decide_eq_true_iff]
  constructor
  · intro htake
    rcases now with _ | ⟨c, now⟩
    · rfl
    · have hc : c = 79 := (List.cons.inj (htake.trans rfl)).1
      exact absurd (hc ▸ List.mem_cons_self) hnow
  · rintro rfl
    rfl

theorem take_refused (hnow : 79 ∉ now) :
    decide ((now ++ dataBlockResend).take 4 = dataBlockOk) = false := by
  refine decide_eq_false fun htake => ?_
  have hmem : (79 : UInt8) ∈ now ++ dataBlockResend :=
    List.mem_of_mem_take (by rw [htake]; decide)
  rcases List.mem_append.1 hmem with hm | hm
  · exact hnow hm
  · exact not_mem_resend hm

theorem agrees_snoc (d : Bool) :
    ds ++ [d] = (List.range (ds ++ [d]).length).map answers ↔
      ds = (List.range ds.length).map answers ∧ d = answers ds.length := by
  rw [List.length_append, List.length_singleton, List.range_succ, List.map_append]
  constructor
  · intro heq
    obtain ⟨hds, hd⟩ := List.append_inj heq (by simp)
    exact ⟨hds, (List.cons.inj hd).1⟩
  · rintro ⟨hds, rfl⟩
    rw [← hds]
    rfl

theorem unread_snoc (hlen : lefts.length = ds.length) (d : Bool) :
    (∀ k < (ds ++ [d]).length, answers k = true → (lefts ++ [now])[k]? = some []) ↔
      (∀ k < ds.length, answers k = true → lefts[k]? = some []) ∧
        (answers ds.length = true → now = []) := by
  have hlast : (lefts ++ [now])[ds.length]? = some now := by
    rw [← hlen, List.getElem?_append_right (Nat.le_refl _), Nat.sub_self]
    rfl
  have hlength : (ds ++ [d]).length = ds.length + 1 := by simp
  rw [hlength]
  constructor
  · intro hall
    constructor
    · intro k hk ha
      have := hall k (by omega) ha
      rwa [List.getElem?_append_left (by omega)] at this
    · intro ha
      have := hall ds.length (by omega) ha
      rw [hlast] at this
      exact Option.some.inj this
  · rintro ⟨hall, hnow⟩ k hk ha
    by_cases hlt : k < ds.length
    · rw [List.getElem?_append_left (by omega)]
      exact hall k hlt ha
    · obtain rfl : k = ds.length := by omega
      rw [hlast, hnow ha]

/-- The sender takes every reply for what it is if and only if every block that is accepted was
written with nothing unread. -/
theorem Exchange.agrees_iff (hx : Exchange answers ds lefts now) :
    (ds = (List.range ds.length).map answers ↔
      ∀ k < ds.length, answers k = true → lefts[k]? = some []) ∧
    (ds = (List.range ds.length).map answers → 79 ∉ now) := by
  induction hx with
  | start => exact ⟨by simp, by simp⟩
  | @turn ds lefts now k hx hk ih =>
    obtain ⟨hiff, hno⟩ := ih
    rw [agrees_snoc, unread_snoc hx.length]
    -- whether this reply is taken for what it is depends on what was unread before it
    rcases ha : answers ds.length with _ | _
    · rw [blockReply, if_neg (by decide)]
      constructor
      · rw [hiff]
        refine and_congr_right fun hC => ?_
        rw [take_refused (hno (hiff.2 hC))]
        simp
      · rintro ⟨hA, -⟩ hmem
        rcases List.mem_append.1 (List.mem_of_mem_drop hmem) with hm | hm
        · exact hno hA hm
        · exact not_mem_resend hm
    · rw [blockReply, if_pos rfl]
      constructor
      · rw [hiff]
        refine and_congr_right fun hC => ?_
        rw [take_accepted (hno (hiff.2 hC))]
        simp
      · rintro ⟨hA, hd⟩
        rw [take_accepted (hno hA)] at hd
        rw [hd, List.nil_append, List.drop_of_length_le hk]
        exact List.not_mem_nil

/-- Between two exchanges, with the bytes arriving in any pieces. -/
structure Cut (answers : ℕ → Bool) (ds : List Bool) (h : Host (Wire ℕ)) : Prop where
  nextReadChar : h.nextReadChar = 0
  dev : h.env.dev = ds.length + 1
  exchange : ∃ entry lefts, h.env.heard.map Prod.snd = entry :: lefts ∧
    Exchange answers ds lefts h.env.unread

theorem exchanges_cut (O : Sys (Wire ℕ)) (arrive : ℕ → ℕ) (m : ℕ → UInt8) (count : ℕ) :
    Exchanges (blockLine singles answers arrive) O m count (Cut answers)
      fun h => .timeout ∈ h.log where
  bad_of_grows := fun hgrow hbad => hgrow.subset hbad
  of_env := by
    intro ds h h' hW henv hnext
    exact ⟨hnext.trans hW.nextReadChar, henv ▸ hW.dev, henv ▸ hW.exchange⟩
  turn := by
    intro ds h text hW hlt hc
    set L := blockLine singles answers arrive with hL
    have hstream : L.stream h.env text = h.env.unread ++ blockReply (answers ds.length) := by
      rw [Line.stream, hL, blockLine, hW.dev]
      exact congrArg (h.env.unread ++ ·) (flatten_singles _)
    obtain ⟨k, h₁, hread, hR, hk, hlog⟩ := Line.ispSerialRead_sys (L := L) (O := O)
      (h := L.told h text) (show 4 ≤ repBufsize by decide) hW.nextReadChar (by decide)
    have hun : (L.told h text).env.unread = L.stream h.env text := Line.unread_wrote _ _
    rw [hun] at hread
    refine ⟨k, h₁, hread, hk, hR.heard, ?_⟩
    rcases hlog with ⟨hk4, -⟩ | hlog
    · right
      obtain ⟨entry, lefts, hlefts, hx⟩ := hW.exchange
      refine ⟨hk4, hun ▸ hR.le, hR.nextReadChar.trans hW.nextReadChar, ?_, entry,
        lefts ++ [h.env.unread], ?_, ?_⟩
      · rw [hR.dev, Line.told, Line.wrote, hL, blockLine, hW.dev, List.length_append]
        rfl
      · rw [hR.heard, Line.told, Line.wrote, List.map_append, hlefts]
        rfl
      · rw [hR.unread, hun, hstream]
        exact hx.turn k hk4
    · left
      rw [hlog]
      simp

/-- What the request for a transfer leaves when the device grants it, unless the host gives up. -/
theorem grant_cut (O : Sys (Wire ℕ)) (arrive : ℕ → ℕ) (answers : ℕ → Bool) (addr count : UInt32)
    (c c' : ℕ) :
    .timeout ∈ (final (ispSendCmdTwoArgs ((blockLine singles answers arrive).sys O) 'W'.toUInt8
      addr count (.start (.quiet 0) 0 c c'))).log ∨ ∃ h' request,
    ispSendCmdTwoArgs ((blockLine singles answers arrive).sys O) 'W'.toUInt8 addr count
      (.start (.quiet 0) 0 c c') = .ok 0 h' ∧
    Cut answers [] h' ∧ decisions h'.log = [] ∧ h'.env.heard.map Prod.fst = [request] := by
  have hhear (text : List UInt8) : (blockLine singles answers arrive).hear 0 text =
      (singles (statusText 0), 1) := rfl
  rcases ispSendCmdTwoArgs_cut (O := O) 'W'.toUInt8 addr count c c' (hhear _)
    ((flatten_singles _).trans (List.append_nil _).symm) with
    htime | ⟨h', es, hsend, h0, hdev, hun, hheard, hes, hlog⟩
  · exact .inl htime
  · refine .inr ⟨h', _, hsend, ⟨h0, hdev, [], [], ?_, ?_⟩, ?_, by rw [hheard]; rfl⟩
    · rw [hheard]
      rfl
    · rw [hun]
      exact .start
    · rw [hlog, hes.decisions_eq]

/-- However the replies are cut, the sender takes every one for the answer to its own transmission,
and sends no accepted block again, if and only if every block that is accepted was written with
nothing unread. -/
theorem ispSendBufToRam_agrees_iff (O : Sys (Wire ℕ)) (arrive : ℕ → ℕ) (answers : ℕ → Bool)
    (m : ℕ → UInt8) (addr : ℕ) (count : UInt32) {uu : ℕ} (huu : uu ≠ 0) (c c' : ℕ)
    (htime : .timeout ∉ (final (ispSendBufToRam ((blockLine singles answers arrive).sys O)
      (Mem.total m) addr count uu (.start (.quiet 0) 0 c c'))).log) :
    ∃ ret h' request texts entry lefts,
    ispSendBufToRam ((blockLine singles answers arrive).sys O) (Mem.total m) addr count uu
      (.start (.quiet 0) 0 c c') = .ok ret h' ∧
    h'.env.heard.map Prod.fst = request :: texts ∧ h'.env.heard.map Prod.snd = entry :: lefts ∧
    (∀ k (hk : k < texts.length),
      Carries texts[k] (block m count.toNat (((decisions h'.log).take k).count true))) ∧
    ((decisions h'.log = (List.range texts.length).map answers ∧
        ∀ j k, j < k → k < texts.length → answers j = true →
          ((decisions h'.log).take j).count true < ((decisions h'.log).take k).count true) ↔
      ∀ k < texts.length, answers k = true → lefts[k]? = some []) := by
  rcases grant_cut O arrive answers (UInt32.ofNat addr) count c c' with
    hbad | ⟨h₁, request, hgrant, hcut, hlog, hheard⟩
  · exact absurd ((ispSendBufToRam_grows huu _).subset hbad) htime
  rw [ispSendBufToRam_of_grant hgrant huu] at htime ⊢
  rcases sendLoop_run (m := m) (exchanges_cut O arrive m count.toNat) ⟨0, 0⟩ h₁ [] .start
    (Nat.zero_le _) (.start hlog hheard) hcut with hbad | ⟨ret, h', ds, hrun, hs, hW, -, -⟩
  · exact absurd hbad htime
  · obtain ⟨texts, htexts, ht⟩ := hs.heard
    obtain ⟨entry, lefts, hlefts, hx⟩ := hW.exchange
    obtain ⟨hiff, -⟩ := hx.agrees_iff
    rw [← ht.length] at hiff
    refine ⟨ret, h', request, texts, entry, lefts, hrun, htexts, hlefts, ?_, ?_⟩
    · rw [hs.decided]
      exact ht.carries
    · rw [hs.decided, ← hiff, and_iff_left_iff_imp]
      intro hds j k hjk hk hj
      have htake (i : ℕ) (hi : i ≤ texts.length) :
          (ds.take i).count true = acceptedBefore answers i := by
        rw [hds, List.map_take.symm, List.take_range, Nat.min_eq_left hi, count_map_range]
      rw [htake j (by omega), htake k (by omega)]
      exact acceptedBefore_lt hjk hj

/-- The replies come eight characters at a time. -/
theorem ispSendBufToRam_agrees_iff_lines : ∃ ret h' request texts entry lefts,
    ispSendBufToRam ((blockLine singles (fun k => k ≠ 0) fun _ => 8).sys (Sys.plain _))
      (Mem.total UInt8.ofNat) 0x10000200 4 1 (.start (.quiet 0) 0 0 0) = .ok ret h' ∧
    h'.env.heard.map Prod.fst = request :: texts ∧ h'.env.heard.map Prod.snd = entry :: lefts ∧
    ((decisions h'.log = (List.range texts.length).map (fun k => decide (k ≠ 0)) ∧
        ∀ j k, j < k → k < texts.length → decide (j ≠ 0) = true →
          ((decisions h'.log).take j).count true < ((decisions h'.log).take k).count true) ↔
      ∀ k < texts.length, decide (k ≠ 0) = true → lefts[k]? = some []) := by
  obtain ⟨ret, h', request, texts, entry, lefts, hrun, htexts, hlefts, -, hiff⟩ :=
    ispSendBufToRam_agrees_iff (Sys.plain _) (fun _ => 8) (fun k => k ≠ 0) UInt8.ofNat 0x10000200
      4 Nat.one_ne_zero 0 0 (by decide +kernel)
  exact ⟨ret, h', request, texts, entry, lefts, hrun, htexts, hlefts, hiff⟩

/-- A refusal of which four characters have come: the rest is taken for the answer to the second
transmission, which the device accepts, and the block is sent a third time. -/
theorem ispSendBufToRam_disagrees :
    let run := ispSendBufToRam ((blockLine singles (fun k => k ≠ 0) fun _ => 4).sys (Sys.plain _))
      (Mem.total UInt8.ofNat) 0x10000200 4 1 (.start (.quiet 0) 0 0 0)
    .timeout ∉ (final run).log ∧ value run = some 0 ∧
    decisions (final run).log = [false, false, true] ∧
    (List.range 3).map (fun k => decide (k ≠ 0)) = [false, true, true] := by
  decide +kernel

end Cut

end LpcTools
