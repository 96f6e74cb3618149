import LpcTools.Lib.Settles
import LpcTools.Mains
import LpcTools.Wire

/-!
# No program hangs

The one loop of the programs that nothing bounds is that of `isp_serial_empty_buffer`, which goes on as long
as characters come that end no line. On a line on which they do not come for ever all programs end, whatever
they are asked for (`lpcispMain_settles`, `lpcprogMain_settles`), and so they do with any device that sends
no more than a finite answer to what it hears (`mains_end`).
-/

namespace LpcTools

open Run Getopt Decimal

variable {σ : Type} {E : Sys σ}

/-- Of the next characters, read one by one, one ends a line, or there is none to be read. -/
def Pauses (read : σ → ℕ → ReadOutcome × σ) : ℕ → σ → Prop
  | 0, _ => False
  | n + 1, env =>
    match read env 1 with
    | (.data (c :: _), env) => endsLine c = true ∨ Pauses read n env
    | _ => True

section Connect

theorem drainLine_returned {fuel loops : ℕ} {unused : UInt8} {env : σ} {h : Host σ}
    (hread : E.read h.env 1 = (.data [], env) ∨ E.read h.env 1 = (.error, env)) :
    drainLine E (fuel + 1) unused loops h = .ok .returned { h with env := env } := by
  rw [drainLine]
  rcases hread with hread | hread <;> simp only [hread]

theorem drainLine_kept {fuel loops : ℕ} {unused : UInt8} {env : σ} {h : Host σ}
    (hread : E.read h.env 1 = (.again, env)) (hloops : ¬ 100 < loops) (hun : endsLine unused = true) :
    drainLine E (fuel + 1) unused loops h = .ok (.left unused) { h with env := env } := by
  rw [drainLine]
  simp only [hread, if_neg hloops, hun, if_true]

theorem drainLine_settles_of {loops : ℕ} (hagain : loops ≤ 100 → ∀ unused h,
      Settles .polling (fun fuel => drainLine E fuel unused (loops + 1)) h) :
    ∀ {n : ℕ} {unused : UInt8} {h : Host σ}, Pauses E.read n h.env →
      Settles .polling (fun fuel => drainLine E fuel unused loops) h
  | n + 1, unused, h, hpauses => by
    rw [Pauses] at hpauses
    rcases hread : E.read h.env 1 with ⟨bs | _ | _, env⟩
    · rcases bs with _ | ⟨c, bs⟩
      · exact .stop (fun _ hr => by cases hr) fun _ => drainLine_returned (.inl hread)
      · rcases hc : endsLine c with _ | _
        · simp only [hread, hc, Bool.false_eq_true, false_or] at hpauses
          exact .step (drainLine_settles_of hagain (h := { h with env := env }) hpauses) fun _ =>
            drainLine_char hread hc
        · exact .stop (fun _ hr => by cases hr) fun _ => drainLine_end hread hc
    · by_cases hloops : 100 < loops
      · exact .stop (fun _ hr => by cases hr) fun _ => drainLine_timeout hread hloops
      · rcases hun : endsLine unused with _ | _
        · exact .step (hagain (by omega) unused _) fun _ => drainLine_again hread hloops hun
        · exact .stop (fun _ hr => by cases hr) fun _ => drainLine_kept hread hloops hun
    · exact .stop (fun _ hr => by cases hr) fun _ => drainLine_returned (.inr hread)

variable (hpauses : ∀ env, ∃ n, Pauses E.read n env)

include hpauses

/-- It gives up at the hundred and second time that there is nothing to be read. -/
theorem drainLine_settles : ∀ (k : ℕ) {loops : ℕ}, 101 ≤ loops + k → ∀ (unused : UInt8) (h : Host σ),
    Settles .polling (fun fuel => drainLine E fuel unused loops) h
  | 0, loops, hk, unused, h =>
    have ⟨_, hn⟩ := hpauses h.env
    drainLine_settles_of (fun hloops => by omega) hn
  | k + 1, loops, hk, unused, h =>
    have ⟨_, hn⟩ := hpauses h.env
    drainLine_settles_of (fun _ => drainLine_settles k (by omega)) hn

theorem ispSerialEmptyBuffer_settles (h : Host σ) :
    Settles false (fun fuel => ispSerialEmptyBuffer E fuel) h := by
  unfold ispSerialEmptyBuffer
  refine Settles.bind (drainLine_settles hpauses 101 (Nat.le_refl _) 0 h) fun drained t hdrained => ?_
  cases drained with
  | polling => exact absurd rfl hdrained
  | returned => exact .pure (by decide)
  | left unused =>
    refine .const fun t' hrun => ?_
    obtain ⟨unused', t₁, -, hrun⟩ := bind_eq_ok.1 hrun
    split_ifs at hrun <;> cases hrun

theorem exchange_settles (message : List UInt8) (minRead : ℕ) (buf : List UInt8) (h : Host σ) :
    Settles none (fun fuel => exchange E fuel message minRead buf) h := by
  unfold exchange
  refine Settles.lift fun _ t => Settles.bind (ispSerialEmptyBuffer_settles hpauses t) fun done t' hdone => ?_
  rcases done with _ | _
  · exact absurd rfl hdone
  · refine .const fun t'' hrun => ?_
    obtain ⟨r, t₁, -, hrun⟩ := bind_eq_ok.1 hrun
    cases hrun

theorem ispConnect_settles (crystalFreq : UInt32) (h : Host σ) :
    Settles none (fun fuel => ispConnect E fuel crystalFreq) h := by
  have hgone {z : ℤ} {t : Host σ} : Settles none (fun _ => (pure (some z) : Prog σ (Option ℤ))) t :=
    .pure (by simp)
  unfold ispConnect
  refine Settles.lift fun buf t => Settles.lift fun n t => ?_
  split_ifs
  · exact hgone
  · refine Settles.lift fun r t => ?_
    rcases r with ⟨len, got⟩
    simp only []
    split_ifs
    · exact hgone
    · exact hgone
    · refine Settles.bind (exchange_settles hpauses _ _ _ t) fun answer t' hanswer => ?_
      obtain ⟨buf₁, rfl⟩ := Option.ne_none_iff_exists'.1 hanswer
      simp only []
      split_ifs
      · exact hgone
      · refine Settles.bind (exchange_settles hpauses _ _ _ t') fun answer t'' hanswer => ?_
        obtain ⟨buf₂, rfl⟩ := Option.ne_none_iff_exists'.1 hanswer
        simp only []
        split_ifs
        · exact hgone
        · refine Settles.bind (exchange_settles hpauses _ _ _ t'') fun answer t₃ hanswer => ?_
          obtain ⟨buf₃, rfl⟩ := Option.ne_none_iff_exists'.1 hanswer
          exact hgone

theorem syncTarget_settles (freq : UInt32) (h : Host σ) :
    Settles false (fun fuel => syncTarget E fuel freq) h := by
  unfold syncTarget
  refine Settles.bind (ispConnect_settles hpauses freq h) fun r t hr => ?_
  obtain ⟨syncRet, rfl⟩ := Option.ne_none_iff_exists'.1 hr
  simp only []
  split_ifs
  · refine .const fun t' hrun => ?_
    obtain ⟨ret, t₁, -, hrun⟩ := bind_eq_ok.1 hrun
    cases hrun
  · exact .pure (by decide)

theorem lpcprog_settles (freq : UInt32) (find : UInt64 → Option PartEntry) (calcUserCode : ℤ)
    (command : List UInt8) (args : List (List UInt8)) (h : Host σ) :
    Settles none (fun fuel => lpcprog E fuel freq find calcUserCode command args) h := by
  have hid (t : Host σ) : Settles none (fun fuel => progConnectAndId E fuel freq) t := by
    unfold progConnectAndId
    refine Settles.bind (syncTarget_settles hpauses freq t) fun done t' hdone => ?_
    rcases done with _ | _
    · exact absurd rfl hdone
    · refine .const fun t'' hrun => ?_
      obtain ⟨ret, t₁, -, hret⟩ := bind_eq_ok.1 hrun
      cases hret
  unfold lpcprog
  refine Settles.bind (hid h) fun r t hr => ?_
  obtain ⟨devId, rfl⟩ := Option.ne_none_iff_exists'.1 hr
  simp only []
  split_ifs
  · exact .pure (by simp)
  · refine .const fun t' hrun => ?_
    obtain ⟨ret, t₁, -, hrun⟩ := bind_eq_ok.1 hrun
    cases hrun

theorem Invocation.run_settles (invocation : Invocation) (h : Host σ) :
    Settles none (fun fuel => invocation.run E fuel) h := by
  cases invocation with
  | synchronize =>
    refine Settles.bind (ispConnect_settles hpauses ispCrystalFreq h) fun r t hr => ?_
    obtain ⟨ret, rfl⟩ := Option.ne_none_iff_exists'.1 hr
    exact .pure (by simp)
  | isp cmd args =>
    refine .const fun t hrun => ?_
    obtain ⟨ret, t₁, -, hrun⟩ := bind_eq_ok.1 hrun
    cases hrun
  | prog freq find calcUserCode cmd args => exact lpcprog_settles hpauses freq find calcUserCode cmd args h

theorem ispServe_settles (synchronize : Bool) (operands : List Word) (h : Host σ) :
    Settles none (fun fuel => ispServe E fuel synchronize operands) h := by
  unfold ispServe
  rcases synchronize with _ | _
  · rcases operands with _ | ⟨command, args⟩
    · exact .pure (by simp)
    · exact Invocation.run_settles hpauses (.isp command args) h
  · rcases operands with _ | ⟨command, args⟩
    · exact Invocation.run_settles hpauses .synchronize h
    · exact .pure (by simp)

end Connect

section Mains

/-- The program has come to its end. -/
def Outcome.Ended : Outcome σ → Prop
  | .ran (.ok none _) => False
  | _ => True

theorem Outcome.ended_of_settles {x : ℕ → Prog σ (Option ℤ)} {h : Host σ} (hx : Settles none x h) :
    ∃ outcome : Outcome σ, outcome.Ended ∧ ∃ n, ∀ fuel ≥ n, .ran (x fuel h) = outcome := by
  obtain ⟨r, hr, n, hn⟩ := hx
  refine ⟨.ran r, ?_, n, fun fuel hle => congrArg Outcome.ran (hn fuel hle)⟩
  rcases r with ⟨_ | code, t⟩ | ⟨f, t⟩
  · exact absurd rfl (hr t)
  · trivial
  · trivial

theorem lpcispMain_settles (S : Shell σ) (hpauses : ∀ env, ∃ n, Pauses S.sys.read n env) (argv : List Word) :
    ∃ outcome : Outcome σ, outcome.Ended ∧ ∃ n, ∀ fuel ≥ n, lpcispMain S fuel argv = outcome := by
  have hexit (code : ℤ) : ∃ outcome : Outcome σ, outcome.Ended ∧ ∃ n, ∀ fuel ≥ n, .exit code = outcome :=
    ⟨.exit code, trivial, 0, fun _ _ => rfl⟩
  unfold lpcispMain
  rcases parameters ispTable IspOptions.take .default S.posixlyCorrect argv with code | ⟨o, operands⟩
  · exact hexit code
  · unfold ispStart
    rcases operands with _ | ⟨device, operands⟩
    · exact hexit 0
    · rcases hopen : ispSerialOpen S o.baudrate (some device) with code | env
      · simp only [hopen]
        exact hexit (-1)
      · simp only [hopen]
        exact Outcome.ended_of_settles (ispServe_settles (E := S.sys.withTrace o.traceOn) hpauses _ _ _)

theorem lpcprogMain_settles (S : Shell σ) (hpauses : ∀ env, ∃ n, Pauses S.sys.read n env) (argv : List Word) :
    ∃ outcome : Outcome σ, outcome.Ended ∧ ∃ n, ∀ fuel ≥ n, lpcprogMain S fuel argv = outcome := by
  have hexit (code : ℤ) : ∃ outcome : Outcome σ, outcome.Ended ∧ ∃ n, ∀ fuel ≥ n, .exit code = outcome :=
    ⟨.exit code, trivial, 0, fun _ _ => rfl⟩
  unfold lpcprogMain
  rcases parameters progTable ProgOptions.take .default S.posixlyCorrect argv with code | ⟨o, operands⟩
  · exact hexit code
  · simp only [progStart]
    rcases o.command with _ | command
    · exact hexit (-1)
    · rcases partsFileNameOf S.partsFile o.partsFileName with _ | partsFileName
      · exact hexit (-1)
      · rcases o.device with _ | device
        · exact hexit 0
        · rcases hopen : ispSerialOpen S o.baudrate (some device) with code | env
          · simp only [hopen]
            exact hexit (-1)
          · simp only [hopen]
            exact Outcome.ended_of_settles
              (Invocation.run_settles (E := S.sys.withTrace o.traceOn) hpauses (.prog _ _ _ _ _) _)

/-- On a line of which the characters pause, each program ends, with what does not depend on how many polls
there are time for, whatever it is asked for, and whatever comes over the line or is in the files. -/
theorem mains_end (S : Shell σ) (hpauses : ∀ env, ∃ n, Pauses S.sys.read n env) (argv : List Word) :
    ∃ n, ∃ isp prog : Outcome σ, isp.Ended ∧ prog.Ended ∧
      ∀ fuel ≥ n, lpcispMain S fuel argv = isp ∧ lpcprogMain S fuel argv = prog := by
  obtain ⟨isp, hisp, n, hn⟩ := lpcispMain_settles S hpauses argv
  obtain ⟨prog, hprog, n', hn'⟩ := lpcprogMain_settles S hpauses argv
  exact ⟨max n n', isp, prog, hisp, hprog, fun fuel hle => ⟨hn fuel (by omega), hn' fuel (by omega)⟩⟩

/-- What waits on a line is read in the end, whatever it is and whenever it arrives. -/
theorem Line.pauses {δ : Type} (L : Line δ) (O : Sys (Wire δ)) (w : Wire δ) :
    ∃ n, Pauses (L.sys O).read n w := by
  obtain ⟨k, hk⟩ : ∃ k, w.unread.length < k := ⟨_, Nat.lt_succ_self _⟩
  refine ⟨k, ?_⟩
  induction k generalizing w with
  | zero => omega
  | succ k ih =>
    rw [Pauses]
    simp only [Line.sys]
    rcases hfront : L.front w with _ | ⟨c, bs⟩
    · trivial
    · have htook := unread_took (L := L) w 1
      have hprefix := (front_unread (L := L) w).length_le
      rw [hfront] at htook hprefix
      simp only [List.cons_ne_nil, if_false, List.take_succ_cons, List.take_zero]
      refine .inr (ih (L.took w 1) ?_)
      rw [htook, List.length_drop]
      simp only [List.length_cons, List.take_succ_cons, List.take_zero, List.length_nil] at hprefix ⊢
      omega

/-- A line on which all comes back. -/
def echoShell : Shell (Wire Unit) where
  sys := Line.sys ⟨fun _ text => ([text], ()), fun _ => 1⟩ (Sys.plain _)
  posixlyCorrect := false
  openDevice := fun _ => some (.quiet ())
  setAttr := fun _ wire => wire
  partsFile := fun _ => some []
  einval := false
  stale := fun _ _ => 0

theorem mains_end_echo : ∃ n, ∃ isp prog : Outcome (Wire Unit), isp.Ended ∧ prog.Ended ∧
    ∀ fuel ≥ n, lpcispMain echoShell fuel [bytes "-s".toList, bytes "d".toList] = isp ∧
      lpcprogMain echoShell fuel [bytes "-s".toList, bytes "d".toList] = prog :=
  mains_end echoShell (Line.pauses _ _) _

end Mains

end LpcTools
