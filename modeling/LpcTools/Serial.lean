import LpcTools.Host

/-!
# `isp_serial_write` and `isp_serial_read`

Both poll the descriptor until they are done, and give up at the first empty poll after a hundred
and one others. Outcomes of the polls are taken in the order the system gives them.
-/

namespace LpcTools

open Run

variable {σ : Type} (E : Sys σ)

structure WriteLocals where
  count : ℕ
  loops : ℕ

def serialWriteLoop (buf : List UInt8) : Loop Fault (Host σ) WriteLocals ℤ where
  body := fun l h =>
    match E.write h.env (buf.drop l.count) with
    | (.wrote nb, env) =>
      if l.count + nb < buf.length then .ok (.inl ⟨l.count + nb, l.loops⟩) { h with env := env }
      else .ok (.inr (toInt (l.count + nb))) { h with env := env }
    | (.again, env) =>
      if 100 < l.loops then .ok (.inr (toInt l.count)) ({ h with env := env }.emit .timeout)
      else if l.count < buf.length then .ok (.inl ⟨l.count, l.loops + 1⟩) { h with env := env }
      else .ok (.inr (toInt l.count)) { h with env := env }
    | (.error, env) => .ok (.inr (-1)) { h with env := env }
  rank := fun l _ => (buf.length - l.count) + (101 - l.loops)
  rank_lt := by
    intro l s l' s' h
    split at h
    · rename_i nb env hw
      have hpos := E.write_pos hw
      split_ifs at h with hlt <;> cases h
      have : 0 < nb := hpos (by rw [Ne, List.drop_eq_nil_iff]; omega)
      simp only []
      omega
    · split_ifs at h <;> cases h
      simp only []
      omega
    · cases h

def ispSerialWrite (buf : List UInt8) : Prog σ ℤ := (serialWriteLoop E buf).run ⟨0, 0⟩

/-- `got` is what is stored in the buffer so far. -/
structure ReadLocals where
  got : List UInt8
  loops : ℕ

/-- The condition of the `do` loop of `isp_serial_read`. -/
def ReadLocals.test (minRead : ℕ) (l : ReadLocals) : ReadLocals ⊕ (ℤ × List UInt8) :=
  if l.got.length < minRead then .inl l else .inr (toInt l.got.length, l.got)

def serialReadLoop (bufSize minRead : ℕ) : Loop Fault (Host σ) ReadLocals (ℤ × List UInt8) where
  body := fun l h =>
    match E.read h.env (bufSize - l.got.length) with
    | (.data bs, env) =>
      if bs = [] then .ok (.inr (0, l.got)) { h with env := env }
      else .ok (ReadLocals.test minRead ⟨l.got ++ bs, l.loops⟩) { h with env := env }
    | (.again, env) =>
      if 100 < l.loops then
        .ok (.inr (toInt l.got.length, l.got)) ({ h with env := env }.emit .timeout)
      else .ok (ReadLocals.test minRead ⟨l.got, l.loops + 1⟩) { h with env := env }
    | (.error, env) => .ok (.inr (-1, l.got)) { h with env := env }
  rank := fun l _ => (minRead - l.got.length) + (101 - l.loops)
  rank_lt := by
    intro l s l' s' h
    simp only [ReadLocals.test] at h
    split at h
    · rename_i bs env hr
      split_ifs at h with hnil hlt <;> cases h
      have := List.length_pos_iff.2 hnil
      simp only [List.length_append] at hlt ⊢
      omega
    · split_ifs at h <;> cases h
      simp only []
      omega
    · cases h

/-- The value returned, and the bytes stored from the start of the buffer on. -/
def ispSerialRead (bufSize minRead : ℕ) : Prog σ (ℤ × List UInt8) := fun h =>
  if bufSize < minRead then .ok (-3, []) h
  else if h.nextReadChar = 0 then (serialReadLoop E bufSize minRead).run ⟨[], 0⟩ h
  else if bufSize = 0 then .error .serialBuffer h
  else (serialReadLoop E bufSize minRead).run ⟨[h.nextReadChar], 0⟩ { h with nextReadChar := 0 }

section Polled

/-- What waiting for the line leaves alone: the retry counters, and all of the log but timeouts. -/
structure Polled (h h' : Host σ) : Prop where
  request : h'.resendRequestForBlock = h.resendRequestForBlock
  requested : h'.resendRequestedForBlock = h.resendRequestedForBlock
  log : ∃ ts : List Event, (∀ e ∈ ts, e = .timeout) ∧ h'.log = h.log ++ ts

variable {E} {h h' h'' : Host σ}

theorem Polled.refl (h : Host σ) : Polled h h := ⟨rfl, rfl, [], by simp, by simp⟩

theorem Polled.trans (p : Polled h h') (q : Polled h' h'') : Polled h h'' := by
  obtain ⟨ts, hts, hlog⟩ := p.log
  obtain ⟨ts', hts', hlog'⟩ := q.log
  refine ⟨q.request.trans p.request, q.requested.trans p.requested, ts ++ ts', ?_, ?_⟩
  · intro e he
    rcases List.mem_append.1 he with he | he
    · exact hts e he
    · exact hts' e he
  · rw [hlog', hlog, List.append_assoc]

theorem Polled.of_env (env : σ) : Polled h { h with env := env } := ⟨rfl, rfl, [], by simp, by simp⟩

theorem Polled.of_timeout (env : σ) : Polled h ({ h with env := env }.emit .timeout) :=
  ⟨rfl, rfl, [.timeout], by simp, rfl⟩

theorem ispSerialWrite_polled (buf : List UInt8) (h : Host σ) :
    Polled h (final (ispSerialWrite E buf h)) := by
  refine Loop.run_final (R := Polled) Polled.trans ?_ _ _
  intro l h
  simp only [serialWriteLoop]
  split
  · split_ifs <;> exact .of_env _
  · split_ifs
    · exact .of_timeout _
    · exact .of_env _
    · exact .of_env _
  · exact .of_env _

theorem serialReadLoop_polled (bufSize minRead : ℕ) (l : ReadLocals) (h : Host σ) :
    Polled h (final ((serialReadLoop E bufSize minRead).run l h)) := by
  refine Loop.run_final (R := Polled) Polled.trans ?_ _ _
  intro l h
  simp only [serialReadLoop]
  split
  · split_ifs <;> exact .of_env _
  · split_ifs
    · exact .of_timeout _
    · exact .of_env _
  · exact .of_env _

theorem ispSerialRead_polled (bufSize minRead : ℕ) (h : Host σ) :
    Polled h (final (ispSerialRead E bufSize minRead h)) := by
  unfold ispSerialRead
  split_ifs
  · exact .refl h
  · exact serialReadLoop_polled _ _ _ h
  · exact .refl h
  · have := serialReadLoop_polled (E := E) bufSize minRead ⟨[h.nextReadChar], 0⟩
      { h with nextReadChar := 0 }
    exact ⟨this.request, this.requested, this.log⟩

end Polled

section Result

variable {E} {h : Host σ} {n m : ℕ}

theorem serialReadLoop_spec {k : ℕ} (l : ReadLocals) (h : Host σ) :
    l.got.length ≤ n → l.got.length < m ∨ l.got.length = k → ∃ len got h',
      (serialReadLoop E n m).run l h = .ok (len, got) h' ∧ got.length ≤ n ∧
      h'.nextReadChar = h.nextReadChar ∧
      (len = toInt got.length ∨ -1 ≤ len ∧ len ≤ 0 ∧ (got.length < m ∨ got.length = k)) := by
  induction l, h using (serialReadLoop E n m).run_induction with
  | step l h ih =>
    intro hle hlt
    rcases hbody : (serialReadLoop E n m).body l h with ⟨l' | r, h₁⟩ | ⟨f, h₁⟩ <;>
      have hb := hbody <;> simp only [serialReadLoop, ReadLocals.test] at hb
    · obtain ⟨hle', hlt', hnext'⟩ : l'.got.length ≤ n ∧ l'.got.length < m ∧
          h₁.nextReadChar = h.nextReadChar := by
        split at hb
        · rename_i bs env hread
          have hbs := E.read_le hread
          split_ifs at hb with hnil htest <;> cases hb
          refine ⟨?_, htest, rfl⟩
          rw [List.length_append]
          omega
        · split_ifs at hb with hloops htest <;> cases hb
          exact ⟨hle, htest, rfl⟩
        · cases hb
      obtain ⟨len, got, h', hrun, hgot, hnext, hcase⟩ := ih _ _ hbody hle' (.inl hlt')
      exact ⟨len, got, h', (Loop.run_inl hbody).trans hrun, hgot, hnext.trans hnext', hcase⟩
    · refine ⟨r.1, r.2, h₁, Loop.run_inr hbody, ?_⟩
      split at hb
      · rename_i bs env hread
        have hbs := E.read_le hread
        split_ifs at hb with hnil htest <;> cases hb
        · exact ⟨hle, rfl, .inr ⟨Int.negSucc_le_zero 0, Int.le_refl 0, hlt⟩⟩
        · refine ⟨?_, rfl, .inl rfl⟩
          rw [List.length_append]
          omega
      · split_ifs at hb with hloops htest <;> cases hb <;> exact ⟨hle, rfl, .inl rfl⟩
      · cases hb
        exact ⟨hle, rfl, .inr ⟨Int.le_refl (-1), Int.negSucc_le_zero 0, hlt⟩⟩
    · split at hb
      · split_ifs at hb
      · split_ifs at hb
      · cases hb

/-- A read stores no more than there is room for, and returns how much that is. At an end of file or
an error, which come before the minimum is reached, it returns no more than zero. -/
theorem ispSerialRead_spec (hmin : m ≤ n) (h0 : h.nextReadChar = 0) : ∃ len got h',
    ispSerialRead E n m h = .ok (len, got) h' ∧ got.length ≤ n ∧ h'.nextReadChar = 0 ∧
      (len = toInt got.length ∨ -1 ≤ len ∧ len ≤ 0 ∧ (got.length < m ∨ got.length = 0)) := by
  unfold ispSerialRead
  rw [if_neg (Nat.not_lt.2 hmin), if_pos h0]
  obtain ⟨len, got, h', hrun, hgot, hnext, hcase⟩ := serialReadLoop_spec (E := E) (m := m) ⟨[], 0⟩ h
    (Nat.zero_le _) (.inr rfl)
  exact ⟨len, got, h', hrun, hgot, hnext.trans h0, hcase⟩

/-- Whatever character was kept back, a read into a buffer takes it, and stores no more than there is
room for. -/
theorem ispSerialRead_fits (hmin : m ≤ n) (hpos : 0 < n) : ∃ len got h',
    ispSerialRead E n m h = .ok (len, got) h' ∧ got.length ≤ n ∧ h'.nextReadChar = 0 := by
  by_cases h0 : h.nextReadChar = 0
  · obtain ⟨len, got, h', hread, hgot, hnext, -⟩ := ispSerialRead_spec (E := E) hmin h0
    exact ⟨len, got, h', hread, hgot, hnext⟩
  · obtain ⟨len, got, h', hrun, hgot, hnext, -⟩ := serialReadLoop_spec (E := E) (m := m)
      ⟨[h.nextReadChar], 0⟩ { h with nextReadChar := 0 } hpos (.inr rfl)
    unfold ispSerialRead
    rw [if_neg (Nat.not_lt.2 hmin), if_neg h0, if_neg (Nat.ne_of_gt hpos)]
    exact ⟨len, got, h', hrun, hgot, hnext⟩

theorem ispSerialRead_total (hmin : m ≤ n) (hpos : 0 < n) : ∃ r h',
    ispSerialRead E n m h = .ok r h' ∧ h'.nextReadChar = 0 := by
  obtain ⟨len, got, h', hread, -, hnext⟩ := ispSerialRead_fits (E := E) (h := h) hmin hpos
  exact ⟨_, h', hread, hnext⟩

/-- A line that takes all it is given takes a message at once. -/
theorem ispSerialWrite_takes (hall : ∀ s bs, (E.write s bs).1 = .wrote bs.length) (buf : List UInt8)
    (h : Host σ) : ∃ env, ispSerialWrite E buf h = .ok (toInt buf.length) { h with env := env } := by
  have hr := hall h.env buf
  rcases hw : E.write h.env buf with ⟨r, env⟩
  rw [hw] at hr
  change r = _ at hr
  subst hr
  refine ⟨env, Loop.run_inr ?_⟩
  simp only [serialWriteLoop, List.drop_zero, hw, Nat.zero_add, Nat.lt_irrefl, if_false]

theorem ispSerialWrite_total (buf : List UInt8) (h : Host σ) : ∃ n h',
    ispSerialWrite E buf h = .ok n h' ∧ h'.nextReadChar = h.nextReadChar := by
  have hnext : (final (ispSerialWrite E buf h)).nextReadChar = h.nextReadChar := by
    refine Loop.run_final (R := fun s t : Host σ => t.nextReadChar = s.nextReadChar)
      (fun p q => Eq.trans q p) ?_ _ _
    intro l h
    simp only [serialWriteLoop]
    split <;> (try split_ifs) <;> rfl
  have hbody : ∀ l h f t, (serialWriteLoop E buf).body l h ≠ .error f t := by
    intro l h f t hb
    simp only [serialWriteLoop] at hb
    split at hb
    · split_ifs at hb
    · split_ifs at hb
    · cases hb
  obtain ⟨n, h', hrun⟩ := Loop.run_total hbody ⟨0, 0⟩ h
  change ispSerialWrite E buf h = .ok n h' at hrun
  rw [hrun] at hnext
  exact ⟨n, h', hrun, hnext⟩

end Result

end LpcTools
