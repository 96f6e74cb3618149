import LpcTools.Serial

/-!
# A serial line with a device at its end

The device answers each message the host writes with pieces of bytes. They wait on the line, and a
poll of the host gets as many whole pieces as have arrived by then, or as much of them as it has room
for. A reply of one piece is delivered whole; one cut into single bytes may be split in any way.
-/

namespace LpcTools

open Run

/-- A device, as what it answers to a message, and how many pieces are there at each poll. -/
structure Line (δ : Type) where
  hear : δ → List UInt8 → List (List UInt8) × δ
  arrive : ℕ → ℕ

structure Wire (δ : Type) where
  dev : δ
  pending : List (List UInt8)
  polls : ℕ
  /-- The messages written so far, each with the bytes that were waiting unread at that time. -/
  heard : List (List UInt8 × List UInt8)

variable {δ : Type}

/-- A line on which nothing is waiting. -/
def Wire.quiet (dev : δ) : Wire δ := ⟨dev, [], 0, []⟩

/-- A device that answers one message after the other as it is told to, whatever it hears. -/
def scripted (arrive : ℕ → ℕ) : Line (List (List UInt8)) where
  hear := fun replies _ => (replies.head?.toList, replies.tail)
  arrive := arrive

/-- The same line, `t` polls after the start. -/
def Wire.at (w : Wire δ) (t : ℕ) : Wire δ := { w with polls := t }

def Wire.unread (w : Wire δ) : List UInt8 := w.pending.flatten

/-- A reply in one piece. -/
def whole (bs : List UInt8) : List (List UInt8) := [bs]

/-- A reply in single bytes. -/
def singles (bs : List UInt8) : List (List UInt8) := bs.map ([·])

theorem flatten_singles (bs : List UInt8) : (singles bs).flatten = bs := by
  induction bs with
  | nil => rfl
  | cons c bs ih => exact congrArg (c :: ·) ih

/-- What is left of a piece when `n` bytes of it are taken. -/
def rest (bs : List UInt8) (n : ℕ) : List (List UInt8) := if bs.drop n = [] then [] else [bs.drop n]

theorem rest_of_length_le {bs : List UInt8} {n : ℕ} (h : bs.length ≤ n) : rest bs n = [] :=
  if_pos (List.drop_of_length_le h)

theorem flatten_rest (bs : List UInt8) (n : ℕ) : (rest bs n).flatten = bs.drop n := by
  unfold rest
  by_cases hnil : bs.drop n = []
  · rw [if_pos hnil, hnil]
    rfl
  · rw [if_neg hnil]
    simp

namespace Line

variable (L : Line δ)

/-- What has arrived by the next poll. -/
def front (w : Wire δ) : List UInt8 := (w.pending.take (L.arrive w.polls)).flatten

def poll (w : Wire δ) : Wire δ := { w with polls := w.polls + 1 }

/-- The line after a poll that got the first `n` bytes of what has arrived. -/
def took (w : Wire δ) (n : ℕ) : Wire δ :=
  { w with
    polls := w.polls + 1
    pending := rest (L.front w) n ++ w.pending.drop (L.arrive w.polls) }

def wrote (w : Wire δ) (bs : List UInt8) : Wire δ :=
  ⟨(L.hear w.dev bs).2, w.pending ++ (L.hear w.dev bs).1, w.polls, w.heard ++ [(bs, w.unread)]⟩

/-- The host after it has written a message. -/
def told (h : Host (Wire δ)) (bs : List UInt8) : Host (Wire δ) := { h with env := L.wrote h.env bs }

/-- The system `O` with this line for its serial line. -/
def sys (O : Sys (Wire δ)) : Sys (Wire δ) :=
  { O with
    read := fun w n =>
      if L.front w = [] then (.again, Line.poll w) else (.data ((L.front w).take n), L.took w n)
    write := fun w bs => (.wrote bs.length, L.wrote w bs)
    read_le := by
      intro w n bs t h
      split_ifs at h
      · cases h
      · rw [← ReadOutcome.data.inj (Prod.mk.inj h).1]
        exact List.length_take_le _ _
    write_le := by
      intro w bs n t h
      cases h
      exact Nat.le_refl _
    write_pos := by
      intro w bs n t h hne
      cases h
      exact List.length_pos_iff.2 hne }

variable {L} {O : Sys (Wire δ)} {h : Host (Wire δ)}

theorem unread_took (w : Wire δ) (n : ℕ) : (L.took w n).unread = w.unread.drop
    ((L.front w).take n).length := by
  have hsplit : w.unread = L.front w ++ (w.pending.drop (L.arrive w.polls)).flatten := by
    rw [Wire.unread, front, ← List.flatten_append, List.take_append_drop]
  rw [hsplit, Wire.unread, took, List.flatten_append, flatten_rest, List.length_take,
    List.drop_append_of_le_length (Nat.min_le_right _ _)]
  congr 1
  rcases Nat.le_total n (L.front w).length with hle | hle
  · rw [Nat.min_eq_left hle]
  · rw [Nat.min_eq_right hle, List.drop_of_length_le hle, List.drop_of_length_le (Nat.le_refl _)]

theorem front_unread (w : Wire δ) : L.front w <+: w.unread := by
  rw [Wire.unread, front, ← List.take_append_drop (L.arrive w.polls) w.pending,
    List.flatten_append]
  simp

theorem ispSerialWrite_sys (bs : List UInt8) (h : Host (Wire δ)) :
    ispSerialWrite (L.sys O) bs h = .ok (toInt bs.length) (L.told h bs) := by
  refine Loop.run_inr ?_
  simp [serialWriteLoop, sys, told]

/-- What a read leaves: `k` more bytes of the line are read, and nothing else has changed. -/
structure Read (h : Host (Wire δ)) (k : ℕ) (h' : Host (Wire δ)) : Prop where
  dev : h'.env.dev = h.env.dev
  heard : h'.env.heard = h.env.heard
  unread : h'.env.unread = h.env.unread.drop k
  le : k ≤ h.env.unread.length
  nextReadChar : h'.nextReadChar = h.nextReadChar
  request : h'.resendRequestForBlock = h.resendRequestForBlock
  requested : h'.resendRequestedForBlock = h.resendRequestedForBlock

theorem Read.refl (h : Host (Wire δ)) : Read h 0 h :=
  ⟨rfl, rfl, rfl, Nat.zero_le _, rfl, rfl, rfl⟩

theorem Read.trans {k k' : ℕ} {h' h'' : Host (Wire δ)} (r : Read h k h') (r' : Read h' k' h'') :
    Read h (k + k') h'' := by
  refine ⟨r'.dev.trans r.dev, r'.heard.trans r.heard, ?_, ?_, r'.nextReadChar.trans r.nextReadChar,
    r'.request.trans r.request, r'.requested.trans r.requested⟩
  · rw [r'.unread, r.unread, List.drop_drop]
  · have hle := r'.le
    rw [r.unread, List.length_drop] at hle
    have := r.le
    omega

theorem Read.logged {h₀ : Host (Wire δ)} {k : ℕ} (r : Read h₀ k h) (es : List Event) :
    Read h₀ k (h.logged es) :=
  ⟨r.dev, r.heard, r.unread, r.le, r.nextReadChar, r.request, r.requested⟩

theorem Read.emit {h₀ : Host (Wire δ)} {k : ℕ} (r : Read h₀ k h) (e : Event) :
    Read h₀ k (h.emit e) := r.logged [e]

theorem Read.poll {h₀ : Host (Wire δ)} {k : ℕ} (r : Read h₀ k h) :
    Read h₀ k { h with env := Line.poll h.env } :=
  ⟨r.dev, r.heard, r.unread, r.le, r.nextReadChar, r.request, r.requested⟩

theorem Read.took {h₀ : Host (Wire δ)} {k : ℕ} (r : Read h₀ k h) (n : ℕ) :
    Read h₀ (k + ((L.front h.env).take n).length) { h with env := L.took h.env n } := by
  refine ⟨r.dev, r.heard, ?_, ?_, r.nextReadChar, r.request, r.requested⟩
  · rw [unread_took, r.unread, List.drop_drop]
  · have hle := (L.front_unread h.env).length_le
    rw [r.unread, List.length_drop] at hle
    have := r.le
    rw [List.length_take]
    omega

theorem readTurn {n m : ℕ} (l : ReadLocals) (h : Host (Wire δ)) :
    (serialReadLoop (L.sys O) n m).body l h =
      if L.front h.env = [] then
        if 100 < l.loops then .ok (.inr (toInt l.got.length, l.got))
          ({ h with env := Line.poll h.env }.emit .timeout)
        else .ok (ReadLocals.test m ⟨l.got, l.loops + 1⟩) { h with env := Line.poll h.env }
      else if (L.front h.env).take (n - l.got.length) = [] then
        .ok (.inr (0, l.got)) { h with env := L.took h.env (n - l.got.length) }
      else .ok (ReadLocals.test m ⟨l.got ++ (L.front h.env).take (n - l.got.length), l.loops⟩)
        { h with env := L.took h.env (n - l.got.length) } := by
  simp only [serialReadLoop, sys]
  by_cases hf : L.front h.env = []
  · simp only [if_pos hf]
  · simp only [if_neg hf]

/-- Where the host stands in a read of at most `n` bytes that started at `h₀`. -/
structure Reading (n : ℕ) (h₀ : Host (Wire δ)) (l : ReadLocals) (h : Host (Wire δ)) : Prop where
  got : l.got = h₀.env.unread.take l.got.length
  lt : l.got.length < n
  read : Read h₀ l.got.length h
  log : h.log = h₀.log

theorem Reading.append {n : ℕ} {h₀ h : Host (Wire δ)} {l : ReadLocals} (r : Reading n h₀ l h)
    {bs : List UInt8} (hbs : bs <+: h.env.unread) :
    l.got ++ bs = h₀.env.unread.take (l.got.length + bs.length) := by
  rw [r.read.unread] at hbs
  rw [List.take_add, ← r.got, ← List.prefix_iff_eq_take.1 hbs]

theorem readLoop_sys {n m : ℕ} (hmin : m ≤ n) {h₀ : Host (Wire δ)} (l : ReadLocals)
    (h : Host (Wire δ)) : Reading n h₀ l h → ∃ k h',
      (serialReadLoop (L.sys O) n m).run l h = .ok (toInt k, h₀.env.unread.take k) h' ∧
      Read h₀ k h' ∧ k ≤ n ∧ (m ≤ k ∧ h'.log = h₀.log ∨ h'.log = h₀.log ++ [.timeout]) := by
  induction l, h using (serialReadLoop (L.sys O) n m).run_induction with
  | step l h ih =>
    intro hI
    have hbody := readTurn (L := L) (O := O) (n := n) (m := m) l h
    have hpre : (L.front h.env).take (n - l.got.length) <+: h.env.unread :=
      (List.take_prefix _ _).trans (front_unread h.env)
    simp only [ReadLocals.test] at hbody
    split_ifs at hbody with hf hloops hlt hnil hlt
    · refine ⟨l.got.length, _, (Loop.run_inr hbody).trans (by rw [← hI.got]), hI.read.poll.emit .timeout,
        Nat.le_of_lt hI.lt, .inr ?_⟩
      exact congrArg (· ++ [Event.timeout]) hI.log
    · rw [Loop.run_inl hbody]
      exact ih _ _ hbody ⟨hI.got, hI.lt, hI.read.poll, hI.log⟩
    · exact ⟨l.got.length, _, (Loop.run_inr hbody).trans (by rw [← hI.got]), hI.read.poll,
        Nat.le_of_lt hI.lt, .inl ⟨Nat.le_of_not_lt hlt, hI.log⟩⟩
    · have := hI.lt
      rcases List.take_eq_nil_iff.1 hnil with h0 | h0
      · omega
      · exact absurd h0 hf
    · rw [Loop.run_inl hbody]
      refine ih _ _ hbody ⟨?_, Nat.lt_of_lt_of_le hlt hmin, ?_, hI.log⟩
      · rw [List.length_append]
        exact hI.append hpre
      · rw [List.length_append]
        exact hI.read.took _
    · have hlen : (l.got ++ (L.front h.env).take (n - l.got.length)).length =
          l.got.length + ((L.front h.env).take (n - l.got.length)).length := List.length_append
      refine ⟨l.got.length + ((L.front h.env).take (n - l.got.length)).length, _,
        (Loop.run_inr hbody).trans (by rw [hlen, hI.append hpre]), hI.read.took _, ?_,
        .inl ⟨by omega, hI.log⟩⟩
      have := hI.lt
      rw [List.length_take]
      omega

/-- A read returns what it has taken off the line, at least the minimum asked for unless it gives
up. -/
theorem ispSerialRead_sys {n m : ℕ} (hmin : m ≤ n) (h0 : h.nextReadChar = 0) (hpos : 0 < n) :
    ∃ k h', ispSerialRead (L.sys O) n m h = .ok (toInt k, h.env.unread.take k) h' ∧
      Read h k h' ∧ k ≤ n ∧ (m ≤ k ∧ h'.log = h.log ∨ h'.log = h.log ++ [.timeout]) := by
  unfold ispSerialRead
  rw [if_neg (Nat.not_lt.2 hmin), if_pos h0]
  exact readLoop_sys hmin _ _ ⟨rfl, hpos, .refl h, rfl⟩

theorem ispSerialRead_heard (n m : ℕ) (h : Host (Wire δ)) :
    (final (ispSerialRead (L.sys O) n m h)).env.heard = h.env.heard := by
  have hloop : ∀ (l : ReadLocals) (h : Host (Wire δ)),
      (final ((serialReadLoop (L.sys O) n m).run l h)).env.heard = h.env.heard := by
    refine Loop.run_final (R := fun s t : Host (Wire δ) => t.env.heard = s.env.heard)
      (fun hst htu => htu.trans hst) ?_
    intro l h
    rw [readTurn]
    split_ifs <;> rfl
  unfold ispSerialRead
  split_ifs
  · rfl
  · exact hloop _ h
  · rfl
  · exact hloop _ _

/-- A read that finds all that it waits for takes it at once. -/
theorem ispSerialRead_eager {n m : ℕ} (hm : 0 < m) (hmin : m ≤ n) (h0 : h.nextReadChar = 0)
    (hall : h.env.pending.length ≤ L.arrive h.env.polls) (hlen : m ≤ h.env.unread.length) :
    ∃ h', ispSerialRead (L.sys O) n m h =
        .ok (toInt (h.env.unread.take n).length, h.env.unread.take n) h' ∧
      Read h (h.env.unread.take n).length h' ∧ h'.env.pending.length ≤ 1 ∧ h'.log = h.log := by
  have hf : L.front h.env = h.env.unread := by
    rw [front, List.take_of_length_le hall, Wire.unread]
  have htake : m ≤ (h.env.unread.take n).length := by
    rw [List.length_take]
    omega
  have hne : ∀ {l : List UInt8}, m ≤ l.length → l ≠ [] :=
    fun hl => List.length_pos_iff.1 (by omega)
  have htest : ReadLocals.test m ⟨h.env.unread.take n, 0⟩ =
      .inr (toInt (h.env.unread.take n).length, h.env.unread.take n) :=
    if_neg (Nat.not_lt.2 htake)
  have hbody := readTurn (L := L) (O := O) (n := n) (m := m) ⟨[], 0⟩ h
  rw [hf, if_neg (hne hlen), List.length_nil, Nat.sub_zero, if_neg (hne htake), List.nil_append,
    htest] at hbody
  have hR := (Read.refl h).took (L := L) n
  rw [hf, Nat.zero_add] at hR
  refine ⟨{ h with env := L.took h.env n }, ?_, hR, ?_, rfl⟩
  · unfold ispSerialRead
    rw [if_neg (Nat.not_lt.2 hmin), if_pos h0]
    exact Loop.run_inr hbody
  · rw [took, List.drop_of_length_le hall, List.append_nil, rest]
    split_ifs <;> simp

/-- A piece that waits is there before the host gives up. -/
def Prompt (arrive : ℕ → ℕ) : Prop := ∀ t, ∃ j ≤ 100, 0 < arrive (t + j)

theorem front_of_pos {w : Wire δ} {c : List UInt8} {cs : List (List UInt8)}
    (hw : w.pending = c :: cs) (hk : 0 < L.arrive w.polls) : c <+: L.front w := by
  obtain ⟨k, hk⟩ : ∃ k, L.arrive w.polls = k + 1 := ⟨L.arrive w.polls - 1, by omega⟩
  rw [front, hw, hk, List.take_succ_cons, List.flatten_cons]
  exact List.prefix_append _ _

theorem front_single {w : Wire δ} {c : List UInt8} (hw : w.pending = [c])
    (hk : 0 < L.arrive w.polls) : L.front w = c := by
  obtain ⟨k, hk⟩ : ∃ k, L.arrive w.polls = k + 1 := ⟨L.arrive w.polls - 1, by omega⟩
  rw [front, hw, hk]
  simp

/-- Polls that find nothing come to one that does. -/
theorem readLoop_wait {n m : ℕ} (hm : 0 < m) : ∀ (j ℓ : ℕ) (h : Host (Wire δ)), ℓ + j ≤ 100 →
    0 < L.arrive (h.env.polls + j) → ∃ t ℓ', 0 < L.arrive t ∧
      (serialReadLoop (L.sys O) n m).run ⟨[], ℓ⟩ h =
        (serialReadLoop (L.sys O) n m).run ⟨[], ℓ'⟩ { h with env := h.env.at t }
  | 0, ℓ, h, _, hk => ⟨h.env.polls, ℓ, hk, rfl⟩
  | j + 1, ℓ, h, hℓ, hk => by
    by_cases hnow : 0 < L.arrive h.env.polls
    · exact ⟨h.env.polls, ℓ, hnow, rfl⟩
    · have hf : L.front h.env = [] := by
        rw [front, Nat.eq_zero_of_not_pos hnow, List.take_zero, List.flatten_nil]
      have htest : ReadLocals.test m ⟨[], ℓ + 1⟩ = .inl ⟨[], ℓ + 1⟩ := if_pos hm
      have hbody := readTurn (L := L) (O := O) (n := n) (m := m) ⟨[], ℓ⟩ h
      rw [if_pos hf, if_neg (Nat.not_lt.2 (by simp only []; omega)), htest] at hbody
      obtain ⟨t, ℓ', ht, hrun⟩ := readLoop_wait hm j (ℓ + 1) { h with env := Line.poll h.env }
        (by omega) (by simpa only [Line.poll, Nat.add_assoc, Nat.add_comm 1] using hk)
      exact ⟨t, ℓ', ht, (Loop.run_inl hbody).trans hrun⟩

/-- A read that the first waiting piece satisfies takes what has arrived with it. -/
theorem ispSerialRead_piece (hp : Prompt L.arrive) {n m : ℕ} (hm : 0 < m) (hmin : m ≤ n)
    (h0 : h.nextReadChar = 0) {c : List UInt8} {cs : List (List UInt8)}
    (hw : h.env.pending = c :: cs) (hc : m ≤ c.length) : ∃ k h', 0 < k ∧
      ispSerialRead (L.sys O) n m h =
        .ok (toInt ((h.env.pending.take k).flatten.take n).length,
          (h.env.pending.take k).flatten.take n) h' ∧
      Read h ((h.env.pending.take k).flatten.take n).length h' ∧
      h'.env.pending = rest (h.env.pending.take k).flatten n ++ h.env.pending.drop k ∧
      h'.log = h.log := by
  obtain ⟨j, hj, hk⟩ := hp h.env.polls
  obtain ⟨t, ℓ, ht, hrun⟩ := readLoop_wait (O := O) (n := n) hm j 0 h (by omega) hk
  have hlen := (front_of_pos (L := L) (w := h.env.at t) hw ht).length_le
  have hbody := readTurn (L := L) (O := O) (n := n) (m := m) ⟨[], ℓ⟩
    { h with env := h.env.at t }
  have htest (bs : List UInt8) (hbs : m ≤ bs.length) :
      ReadLocals.test m ⟨bs, ℓ⟩ = .inr (toInt bs.length, bs) := if_neg (Nat.not_lt.2 hbs)
  have htake : m ≤ ((L.front (h.env.at t)).take n).length := by
    rw [List.length_take]
    omega
  have hne : ∀ {l : List UInt8}, m ≤ l.length → l ≠ [] :=
    fun hl => List.length_pos_iff.1 (by omega)
  rw [if_neg (hne (Nat.le_trans hc hlen)), List.length_nil, Nat.sub_zero, if_neg (hne htake),
    List.nil_append, htest _ htake] at hbody
  have hR := (Read.refl { h with env := h.env.at t }).took (L := L) n
  rw [Nat.zero_add] at hR
  refine ⟨L.arrive t, { h with env := L.took (h.env.at t) n }, ht, ?_,
    ⟨hR.dev, hR.heard, hR.unread, hR.le, rfl, rfl, rfl⟩, rfl, rfl⟩
  unfold ispSerialRead
  rw [if_neg (Nat.not_lt.2 hmin), if_pos h0, hrun]
  exact Loop.run_inr hbody

theorem ispSerialRead_whole (hp : Prompt L.arrive) {n m : ℕ} (hm : 0 < m) (hmin : m ≤ n)
    (h0 : h.nextReadChar = 0) {c : List UInt8} (hw : h.env.pending = [c]) (hc : m ≤ c.length) :
    ∃ h', ispSerialRead (L.sys O) n m h = .ok (toInt (c.take n).length, c.take n) h' ∧
      Read h (c.take n).length h' ∧ h'.env.pending = rest c n ∧ h'.log = h.log := by
  obtain ⟨k, h', hk, hread, hR, hpend, hlog⟩ := ispSerialRead_piece (O := O) hp hm hmin h0 hw hc
  have htake : (h.env.pending.take k).flatten = c := by
    rw [hw, List.take_of_length_le (show [c].length ≤ k from hk)]
    simp
  have hdrop : h.env.pending.drop k = [] := by
    rw [hw]
    exact List.drop_of_length_le hk
  rw [htake] at hread hR hpend
  rw [hdrop, List.append_nil] at hpend
  exact ⟨h', hread, hR, hpend, hlog⟩

/-- No read finds anything on an empty line. -/
theorem readLoop_pending_nil {n m : ℕ} (l : ReadLocals) (h : Host (Wire δ))
    (hw : h.env.pending = []) :
    (final ((serialReadLoop (L.sys O) n m).run l h)).env.pending = [] := by
  revert hw
  refine Loop.run_final (R := fun s t : Host (Wire δ) => s.env.pending = [] → t.env.pending = [])
    (fun hst htu hs => htu (hst hs)) ?_ l h
  intro l h hnil
  have hf : L.front h.env = [] := by rw [front, hnil, List.take_nil, List.flatten_nil]
  rw [readTurn, if_pos hf]
  split_ifs <;> exact hnil

theorem ispSerialRead_empty {n m : ℕ} (hmin : m ≤ n) (hpos : 0 < n) (h0 : h.nextReadChar = 0)
    (hw : h.env.pending = []) : ∃ h', ispSerialRead (L.sys O) n m h = .ok (0, []) h' ∧
      Read h 0 h' ∧ h'.env.pending = [] := by
  obtain ⟨k, h', hread, hR, -, -⟩ := ispSerialRead_sys (L := L) (O := O) hmin h0 hpos
  have hk : k = 0 := by
    have := hR.le
    rw [Wire.unread, hw] at this
    simpa using this
  subst hk
  refine ⟨h', hread, hR, ?_⟩
  have hnil := readLoop_pending_nil (L := L) (O := O) (n := n) (m := m) ⟨[], 0⟩ h hw
  unfold ispSerialRead at hread
  rw [if_neg (Nat.not_lt.2 hmin), if_pos h0] at hread
  rwa [hread, final_ok] at hnil

/-- A read for more than is waiting, with room for it, leaves nothing on the line. -/
theorem ispSerialRead_drain (hp : Prompt L.arrive) {n m : ℕ} (hm : 0 < m) (hmin : m ≤ n)
    (h0 : h.nextReadChar = 0)
    (hw : h.env.pending = [] ∨ ∃ c, h.env.pending = [c] ∧ c ≠ [] ∧ c.length ≤ n) : ∃ ret got h',
      ispSerialRead (L.sys O) n m h = .ok (ret, got) h' ∧ h'.env.pending = [] ∧
      h'.env.dev = h.env.dev ∧ h'.nextReadChar = 0 := by
  rcases hw with hnil | ⟨c, hc, hne, hlen⟩
  · obtain ⟨h', hread, hR, hpend⟩ := ispSerialRead_empty (L := L) (O := O) hmin (by omega) h0 hnil
    exact ⟨_, _, h', hread, hpend, hR.dev, hR.nextReadChar.trans h0⟩
  · obtain ⟨k, h', hread, hR, -, -⟩ := ispSerialRead_sys (L := L) (O := O) hmin h0 (by omega)
    refine ⟨_, _, h', hread, ?_, hR.dev, hR.nextReadChar.trans h0⟩
    unfold ispSerialRead at hread
    rw [if_neg (Nat.not_lt.2 hmin), if_pos h0] at hread
    obtain ⟨j, hj, hk⟩ := hp h.env.polls
    obtain ⟨t, ℓ, ht, hrun⟩ := readLoop_wait (O := O) (n := n) hm j 0 h (by omega) hk
    obtain ⟨k', hk'⟩ : ∃ k, L.arrive t = k + 1 := ⟨L.arrive t - 1, by omega⟩
    have hfront := front_single (L := L) (w := h.env.at t) hc ht
    have hbody := readTurn (L := L) (O := O) (n := n) (m := m) ⟨[], ℓ⟩
      { h with env := h.env.at t }
    have hpend : (L.took (h.env.at t) n).pending = [] := by
      rw [took, hfront, rest_of_length_le hlen]
      simp [Wire.at, hc, hk']
    rw [hfront, if_neg hne, List.length_nil, Nat.sub_zero, List.take_of_length_le hlen, if_neg hne,
      List.nil_append, ReadLocals.test] at hbody
    split_ifs at hbody with hlt
    · have hnil := readLoop_pending_nil (L := L) (O := O) (n := n) (m := m) ⟨c, ℓ⟩
        { h with env := L.took (h.env.at t) n } hpend
      rwa [← Loop.run_inl hbody, ← hrun, hread, final_ok] at hnil
    · rw [hrun, Loop.run_inr hbody] at hread
      rw [← (EStateM.Result.ok.inj hread).2]
      exact hpend

end Line

end LpcTools
