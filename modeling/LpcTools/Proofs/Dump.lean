import LpcTools.Wrapper
import LpcTools.ProgCommands
import LpcTools.Proofs.ReadSafety

/-!
# What ends up in the output file

`isp_read_memory` returns a length, an error or a status in one `int`; `isp_cmd_read_memory` writes
that many bytes of its buffer to the file, and `dump_to_file` all of it. A cell nothing was stored in
is `none`, so what was not received shows in what is written.
-/

namespace LpcTools

open Run Decimal

def Event.savedCells : Event → Option (List Cell)
  | .saved cells => some cells
  | _ => none

/-- What has been written to output files, in order. -/
def savedCells (log : List Event) : List (List Cell) := log.filterMap Event.savedCells

/-- A dump of `count` bytes that reports success has written that many bytes, each received, and none
ever writes a byte that was not stored. -/
def Honest {σ : Type} (count : ℕ) (run : EStateM.Result Fault (Host σ) ℤ) : Prop :=
  (∀ ret, value run = some ret → 0 ≤ ret → ∃ cells, savedCells (final run).log = [cells] ∧
    cells.length = count ∧ cells <+: (tookBytes (final run).log).map some) ∧
  ∀ cells ∈ savedCells (final run).log, none ∉ cells

/-- Every request has been answered with success. -/
def Granted (log : List Event) : Prop := ∀ text a, .request text a ∈ log → a = .status 0

/-- There is no file of that name to write to. -/
def Sys.Unopened {σ : Type} (E : Sys σ) (env : σ) (filename : List UInt8) : Prop :=
  isStdStream filename = false ∧ E.openOutput env filename = false

/-- The two functions that dump memory to a file, with their arguments. -/
inductive DumpCall where
  | readMemory (args : List (List UInt8))
  | dump (part : PartDesc) (filename : List UInt8)

namespace DumpCall

variable {σ : Type}

def run (E : Sys σ) : DumpCall → Prog σ ℤ
  | readMemory args => ispCmdReadMemory E args
  | dump part filename => dumpToFile E part filename

/-- How many bytes are asked for. -/
def count : DumpCall → ℕ
  | readMemory args => argValue (args.getD 1 [])
  | dump part _ => part.flashSize.toNat

/-- The arguments are refused, there is no memory for the data when the call starts at `env`, or no file to
write it to when the read has ended at `env'`. -/
def Stops (E : Sys σ) (env env' : σ) : DumpCall → Prop
  | readMemory args => args.length < 3 ∨ argValue (args.getD 0 []) % 4 ≠ 0 ∨
    argValue (args.getD 1 []) % 4 ≠ 0 ∨ E.malloc env (argValue (args.getD 1 [])) = false ∨
    E.Unopened env' (args.getD 2 [])
  | dump part filename => E.malloc env part.flashSize.toNat = false ∨ E.Unopened env' filename

/-- All that was asked for has come: for `isp_cmd_read_memory`, behind a granted request, and
acknowledged if it came in blocks. -/
def Came : DumpCall → List Event → Prop
  | readMemory args, log => Granted log ∧
    if ((args[3]?).map argValue).getD 1 % 2 ^ 32 = 0 then
      (tookBytes log).length = argValue (args.getD 1 []) ∧ 0 < argValue (args.getD 1 []) ∧
        argValue (args.getD 1 []) < 2 ^ 31
    else (ackedBytes log).length = argValue (args.getD 1 []) ∧ argValue (args.getD 1 []) < 2 ^ 32
  | dump part _, log => (tookBytes log).length = part.flashSize.toNat

end DumpCall

section Log

variable {σ : Type} {h h' : Host σ}

@[simp] theorem savedCells_append (a b : List Event) :
    savedCells (a ++ b) = savedCells a ++ savedCells b := by
  simp [savedCells]

theorem savedCells_emit {e : Event} (he : e.onLine = true) :
    savedCells (h.emit e).log = savedCells h.log := by
  rw [Host.emit_log, savedCells_append]
  rcases e with _ | _ | _ | _ | _ | _ | _ | _ | _ <;> first | exact List.append_nil _ | cases he

theorem Polled.savedCells (p : Polled h h') : savedCells h'.log = savedCells h.log := by
  obtain ⟨ts, hts, hlog⟩ := p.log
  have hnil : LpcTools.savedCells ts = [] := by
    rw [LpcTools.savedCells, List.filterMap_eq_nil_iff]
    intro e he
    rw [hts e he]
    rfl
  rw [hlog, savedCells_append, hnil, List.append_nil]

theorem savedCells_frame (E : Sys σ) : Frame E fun h h' => savedCells h'.log = savedCells h.log where
  refl := fun _ => rfl
  trans := fun p q => Eq.trans q p
  write := fun bs h => (ispSerialWrite_polled bs h).savedCells
  read := fun n m h => (ispSerialRead_polled n m h).savedCells
  counters := fun _ _ _ => rfl
  emit := fun _ _ he => savedCells_emit he

/-- Nothing is written while memory is read. -/
theorem ispReadMemory_saved {E : Sys σ} (data : List Cell) (addr count : UInt32) (uu : ℕ)
    (h : Host σ) :
    savedCells (final (ispReadMemory E data addr count uu h)).log = savedCells h.log := by
  refine (savedCells_frame E).ispReadMemory (fun h text a => ?_) data addr count uu h
  rw [Host.emit_log, savedCells_append]
  exact List.append_nil _

theorem ispBuffToFile_ends {E : Sys σ} (hsave : ∀ s n, E.save s n = some n) (data : List Cell)
    (len : UInt32) (filename : List UInt8) :
    Ends (ispBuffToFile E data len filename h) (fun ret h' => ret = -1 ∧ h' = h ∧ E.Unopened h.env filename ∨
      ret = toInt len.toNat ∧ h' = h.emit (.saved (cellsAt data len.toNat)) ∧ ¬ E.Unopened h.env filename)
      (fun _ _ => False) := by
  have hunopened : (!isStdStream filename && !E.openOutput h.env filename) = true ↔
      E.Unopened h.env filename := by simp [Sys.Unopened]
  unfold ispBuffToFile
  refine Ends.bind_ok (get_apply _) ?_
  by_cases hopen : E.Unopened h.env filename
  · rw [if_pos (hunopened.2 hopen)]
    exact .inl ⟨rfl, rfl, hopen⟩
  · rw [if_neg (mt hunopened.1 hopen), hsave]
    refine Ends.bind_ok (Run.bind_ok (emit_apply _ _)) (Ends.pure (.inr ⟨?_, rfl, hopen⟩))
    rw [if_neg (not_not.2 rfl)]

theorem honest_of_unsaved {count : ℕ} {run : EStateM.Result Fault (Host σ) ℤ}
    (hsaved : savedCells (final run).log = []) (hneg : ∀ ret, value run = some ret → ret < 0) :
    Honest count run := by
  refine ⟨fun ret hret hle => absurd (hneg ret hret) (Int.not_lt.2 hle), fun cells hm => ?_⟩
  rw [hsaved] at hm
  cases hm

theorem honest_saved {count : ℕ} {ret : ℤ} {cells : List Cell} (hsaved : savedCells h.log = []) :
    Honest count (.ok ret (h.emit (.saved cells))) ↔
      (0 ≤ ret → cells.length = count ∧ cells <+: (tookBytes h.log).map some) ∧ none ∉ cells := by
  have hlog : savedCells (h.emit (.saved cells)).log = [cells] := by
    rw [Host.emit_log, savedCells_append, hsaved]
    rfl
  have htook : tookBytes (h.emit (.saved cells)).log = tookBytes h.log := by
    rw [Host.emit_log, tookBytes_append]
    exact List.append_nil _
  rw [Honest, final_ok, hlog, htook]
  constructor
  · rintro ⟨hret, hnone⟩
    refine ⟨fun hle => ?_, hnone cells (List.mem_singleton.2 rfl)⟩
    obtain ⟨cells', he, hcells⟩ := hret ret rfl hle
    rwa [List.singleton_inj.1 he]
  · rintro ⟨hret, hnone⟩
    refine ⟨?_, fun cells' hm => (List.mem_singleton.1 hm) ▸ hnone⟩
    rintro ret' he hle
    cases he
    exact ⟨cells, rfl, hret hle⟩

end Log

section Cells

variable {σ : Type} {h : Host σ} {text : List UInt8} {count uu : ℕ} {r : ℤ × List Cell}

theorem none_not_mem_map (bs : List UInt8) : none ∉ bs.map some := by simp

theorem cellsAt_of_le {data : List Cell} {n : ℕ} (hn : n ≤ data.length) :
    cellsAt data n = data.take n := by
  rw [cellsAt, Nat.sub_eq_zero_of_le hn, List.replicate_zero, List.append_nil]

theorem none_mem_cellsAt {data : List Cell} {n : ℕ} (hn : data.length < n) :
    none ∈ cellsAt data n := by
  refine List.mem_append_right _ (List.mem_replicate.2 ⟨?_, rfl⟩)
  omega

/-- The data starts with what was received, and all of that fits into it. -/
theorem ReadEnds.stored (hr : ReadEnds text count uu (.replicate count none) r h) :
    r.2.length = count ∧ (tookBytes h.log).length ≤ count ∧
      r.2.take (tookBytes h.log).length = (tookBytes h.log).map some := by
  rw [← tookBytes_seen]
  rcases hr with ⟨-, -, -, -, hseen⟩ | ⟨-, htaken, hseen, hr⟩ | ⟨-, -, hr⟩
  · rw [hseen]
    exact ⟨List.length_replicate, Nat.zero_le _, rfl⟩
  · rename_i es
    have hfits := hr.fits
    have htook : tookBytes h.seen = tookBytes es := by
      rw [hseen, ← List.singleton_append, tookBytes_append]
      rfl
    rw [htook, hr.data, overlay_length, overlay_zero]
    · refine ⟨List.length_replicate, hfits, ?_⟩
      rw [← List.length_map (f := some), List.take_left]
    · rw [List.length_map, List.length_replicate]
      omega
  · exact ⟨hr.length, hr.fits, hr.data⟩

theorem granted_iff {es : List Event} (hes : ∀ text a, .request text a ∉ es) {a : Answer}
    (hseen : h.seen = .request text a :: es) : Granted h.log ↔ a = .status 0 := by
  constructor
  · intro hg
    refine hg text a ((Host.mem_seen rfl).1 ?_)
    rw [hseen]
    exact List.mem_cons_self
  · rintro rfl text' a' hm
    have hm' := (Host.mem_seen rfl).2 hm
    rw [hseen] at hm'
    rcases List.mem_cons.1 hm' with he | hm'
    · cases he
      rfl
    · exact absurd hm' (hes _ _)

theorem ReadEnds.honest_iff (hr : ReadEnds text count uu (.replicate count none) r h)
    (hcount : count < 2 ^ 32) :
    let n := (toUnsigned r.1).toNat
    let came := Granted h.log ∧ if uu = 0 then
      (tookBytes h.log).length = count ∧ 0 < count ∧ count < 2 ^ 31
      else (ackedBytes h.log).length = count
    let honest := (0 ≤ toInt n → (cellsAt r.2 n).length = count ∧
      cellsAt r.2 n <+: (tookBytes h.log).map some) ∧ none ∉ cellsAt r.2 n
    (came → honest) ∧ (count < 2 ^ 31 → honest → came) := by
  intro n came honest
  obtain ⟨hlen, hfits, htake⟩ := hr.stored
  rcases hr with ⟨hne, hrange, hret, -, hseen⟩ | ⟨huu, htaken, hseen, hr⟩ | ⟨huu, hoff, hr⟩
  · rename_i ret a
    -- the status is written as a length, and nothing is stored
    have hn : 0 < n := by
      change 0 < (toUnsigned ret).toNat
      rw [toUnsigned, UInt32.toNat_ofNat']
      omega
    have hnone : none ∈ cellsAt (.replicate count none) n := by
      rcases Nat.lt_or_ge count n with hlt | hge
      · exact none_mem_cellsAt (by rwa [List.length_replicate])
      · rw [cellsAt_of_le (by rwa [List.length_replicate]), List.take_replicate]
        refine List.mem_replicate.2 ⟨?_, rfl⟩
        omega
    have hgrant : ¬ Granted h.log := by
      rw [granted_iff (fun _ _ hm => by cases hm) hseen]
      rintro rfl
      exact hne hret.symm
    exact ⟨fun hcame => absurd hcame.1 hgrant, fun _ hhonest => absurd hnone hhonest.2⟩
  · rename_i es
    have hgrant : Granted h.log := by
      refine (granted_iff (fun text a hm => ?_) hseen).2 rfl
      obtain ⟨bs, he⟩ := htaken _ hm
      cases he
    have htook : tookBytes es = tookBytes h.log := by
      rw [← tookBytes_seen, hseen, ← List.singleton_append, tookBytes_append]
      rfl
    have hsign := hr.sign
    have hwhole := hr.whole
    rw [htook] at hsign hwhole
    simp only [came, if_pos huu]
    constructor
    · rintro ⟨-, hall, hpos, hlt⟩
      have hn : n = count := by
        change (toUnsigned r.1).toNat = count
        rw [hwhole hall hpos hlt, toUnsigned_natCast, UInt32.toNat_ofNat_of_lt' hcount]
      have hcells : cellsAt r.2 n = (tookBytes h.log).map some := by
        rw [hn, cellsAt_of_le (Nat.le_of_eq hlen.symm), ← hall, htake]
      simp only [honest, hcells]
      exact ⟨fun _ => ⟨by rwa [List.length_map], List.prefix_rfl⟩, none_not_mem_map _⟩
    · rintro hlt ⟨hret, hnone⟩
      have hle : n ≤ count := by
        refine Nat.le_of_not_lt fun hgt => hnone (none_mem_cellsAt ?_)
        rwa [hlen]
      have hn : (n : ℤ) = r.1 % 2 ^ 32 := by
        change ((toUnsigned r.1).toNat : ℤ) = _
        rw [toUnsigned, UInt32.toNat_ofNat']
        omega
      have hpos : 0 < count := by omega
      have hcells := (hret (by rw [toInt_of_lt (by omega)]; omega)).1
      rw [cellsAt_of_le (by rwa [hlen]), List.length_take, hlen] at hcells
      exact ⟨hgrant, by omega, hpos, hlt⟩
  · have hgrant : Granted h.log := by
      intro text' a hm
      have hm' : .request text' a ∈ h.offLine :=
        List.mem_filter.2 ⟨hm, rfl⟩
      rw [hoff] at hm'
      cases List.mem_singleton.1 hm'
      rfl
    have hacked := hr.acked
    have hret := hr.len
    rw [ackedBytes_seen] at hacked hret
    rw [tookBytes_seen] at hacked
    have hle := hacked.length_le
    have hn : n = (ackedBytes h.log).length := by
      change (toUnsigned r.1).toNat = _
      rw [hret, toUnsigned_toInt, UInt32.toNat_ofNat', Nat.mod_eq_of_lt (by omega)]
    have hfirst : (tookBytes h.log).take (ackedBytes h.log).length = ackedBytes h.log :=
      (List.prefix_iff_eq_take.1 hacked).symm
    have hcells : cellsAt r.2 n = (ackedBytes h.log).map some := by
      calc cellsAt r.2 n = r.2.take (ackedBytes h.log).length := by
            rw [hn, cellsAt_of_le (by omega)]
        _ = (r.2.take (tookBytes h.log).length).take (ackedBytes h.log).length := by
            rw [List.take_take, Nat.min_eq_left hle]
        _ = (ackedBytes h.log).map some := by rw [htake, ← List.map_take, hfirst]
    simp only [came, honest, if_neg huu]
    rw [hcells, hn, List.length_map]
    constructor
    · rintro ⟨-, hall⟩
      exact ⟨fun _ => ⟨hall, hacked.map some⟩, none_not_mem_map _⟩
    · rintro hlt ⟨hall, -⟩
      exact ⟨hgrant, (hall (by rw [toInt_of_lt (by omega)]; omega)).1⟩

end Cells

section Calls

variable {σ : Type} {E : Sys σ}

theorem DumpCall.came_emit {h : Host σ} {cells : List Cell} (d : DumpCall) :
    d.Came (h.emit (.saved cells)).log ↔ d.Came h.log := by
  have htook : tookBytes (h.emit (.saved cells)).log = tookBytes h.log := by
    rw [Host.emit_log, tookBytes_append]
    exact List.append_nil _
  have hacked : ackedBytes (h.emit (.saved cells)).log = ackedBytes h.log := by
    rw [Host.emit_log, ackedBytes_append]
    exact List.append_nil _
  have hgrant : Granted (h.emit (.saved cells)).log ↔ Granted h.log := by
    simp [Granted]
  cases d <;> simp only [DumpCall.Came, htook, hacked, hgrant]

/-- How a dump that starts at `env` goes: it breaks off or stops and writes nothing, or some cells of the
data are written. -/
inductive Dumped (E : Sys σ) (env : σ) (d : DumpCall) : EStateM.Result Fault (Host σ) ℤ → Prop where
  | nothing {run : EStateM.Result Fault (Host σ) ℤ} (hsaved : savedCells (final run).log = [])
      (hneg : ∀ ret, value run = some ret → ret < 0)
      (hstops : value run = none ∨ d.Stops E env (final run).env) : Dumped E env d run
  | cells {ret : ℤ} {cells : List Cell} {h : Host σ} (hsaved : savedCells h.log = [])
      (hgoes : ¬ d.Stops E env h.env)
      (hcame : d.Came h.log →
        (0 ≤ ret → cells.length = d.count ∧ cells <+: (tookBytes h.log).map some) ∧ none ∉ cells)
      (hconv : d.count < 2 ^ 31 →
        (0 ≤ ret → cells.length = d.count ∧ cells <+: (tookBytes h.log).map some) ∧ none ∉ cells →
        d.Came h.log) : Dumped E env d (.ok ret (h.emit (.saved cells)))

theorem Dumped.honest_iff {env : σ} {d : DumpCall} {run : EStateM.Result Fault (Host σ) ℤ}
    (hd : Dumped E env d run) :
    (value run = none ∨ d.Stops E env (final run).env ∨ d.Came (final run).log → Honest d.count run) ∧
      (d.count < 2 ^ 31 → Honest d.count run →
        value run = none ∨ d.Stops E env (final run).env ∨ d.Came (final run).log) := by
  rcases hd with ⟨hsaved, hneg, hstops⟩ | ⟨hsaved, hgoes, hcame, hconv⟩
  · exact ⟨fun _ => honest_of_unsaved hsaved hneg, fun _ _ => hstops.imp_right .inl⟩
  · rw [honest_saved hsaved, final_ok, d.came_emit]
    refine ⟨?_, fun hlt hhonest => .inr (.inr (hconv hlt hhonest))⟩
    rintro (hnone | hstops | hc)
    · cases hnone
    · exact absurd hstops hgoes
    · exact hcame hc

variable (hsave : ∀ s n, E.save s n = some n)

include hsave

/-- A read of memory, and a write of some of what it leaves. -/
theorem Dumped.of_read {d : DumpCall} {data : List Cell} {addr count : UInt32} {uu : ℕ}
    (len : ℤ → UInt32) (filename : List UInt8) {h : Host σ} (hstart : h.log = []) {env : σ}
    (hstops : ∀ env', d.Stops E env env' ↔ E.Unopened env' filename)
    (hcells : ∀ r h₁, ispReadMemory E data addr count uu h = .ok r h₁ →
      let ret := toInt (len r.1).toNat
      let cells := cellsAt r.2 (len r.1).toNat
      let honest := (0 ≤ ret → cells.length = d.count ∧ cells <+: (tookBytes h₁.log).map some) ∧
        none ∉ cells
      (d.Came h₁.log → honest) ∧ (d.count < 2 ^ 31 → honest → d.Came h₁.log)) :
    Dumped E env d ((ispReadMemory E data addr count uu >>= fun r =>
      ispBuffToFile E r.2 (len r.1) filename) h) := by
  have hsaved := ispReadMemory_saved (E := E) data addr count uu h
  rw [hstart] at hsaved
  rcases hread : ispReadMemory E data addr count uu h with ⟨r, h₁⟩ | ⟨f, h₁⟩ <;> rw [hread] at hsaved
  · rw [Run.bind_ok hread]
    have hfile := ispBuffToFile_ends (h := h₁) hsave r.2 (len r.1) filename
    rcases hwrite : ispBuffToFile E r.2 (len r.1) filename h₁ with ⟨ret, h₂⟩ | ⟨f, h₂⟩ <;>
      rw [hwrite] at hfile
    · rcases hfile with ⟨rfl, rfl, hopen⟩ | ⟨rfl, rfl, hopen⟩
      · refine .nothing hsaved (fun ret he => ?_) (.inr ((hstops _).2 hopen))
        cases he
        decide
      · obtain ⟨hcame, hconv⟩ := hcells r h₁ hread
        exact .cells hsaved (mt (hstops _).1 hopen) hcame hconv
    · exact hfile.elim
  · rw [bind_error hread]
    exact .nothing hsaved (fun ret he => by cases he) (.inl rfl)

theorem ispCmdReadMemory_dumped (args : List (List UInt8)) (env : σ) (nextReadChar : UInt8)
    (c c' : ℕ) : Dumped E env (.readMemory args)
      (ispCmdReadMemory E args (.start env nextReadChar c c')) := by
  have hearly : ∀ ret : ℤ, ret < 0 → (DumpCall.readMemory args).Stops E env env →
      Dumped E env (.readMemory args)
        (.ok ret (.start env nextReadChar c c') : EStateM.Result Fault (Host σ) ℤ) := fun ret hneg hstops =>
    .nothing rfl (fun ret' he => by
      cases he
      exact hneg) (.inr hstops)
  unfold ispCmdReadMemory
  rcases args with _ | ⟨arg₀, _ | ⟨arg₁, _ | ⟨filename, rest⟩⟩⟩
  · exact hearly (-12) (by decide) (.inl (by simp))
  · exact hearly (-12) (by decide) (.inl (by simp))
  · exact hearly (-12) (by decide) (.inl (by simp))
  · simp only []
    by_cases hodd : argValue arg₀ % 4 ≠ 0 ∨ argValue arg₁ % 4 ≠ 0
    · rw [if_pos hodd]
      exact hearly (-11) (by decide) (.inr (hodd.imp_right .inl))
    · rw [if_neg hodd, Run.bind_ok (get_apply _)]
      by_cases hmalloc : (!E.malloc (Host.start env nextReadChar c c').env (argValue arg₁)) = true
      · rw [if_pos hmalloc]
        exact hearly (-10) (by decide) (.inr (.inr (.inr (.inl (by simpa [Host.start] using hmalloc)))))
      · rw [if_neg hmalloc]
        refine Dumped.of_read hsave toUnsigned filename rfl (fun env' => ?_) fun r h₁ hread => ?_
        · -- the exits before the read are behind
          rw [not_or] at hodd
          simp only [DumpCall.Stops, List.length_cons, List.getD_cons_zero, List.getD_cons_succ]
          rw [or_iff_right (by omega), or_iff_right hodd.1, or_iff_right hodd.2, or_iff_right]
          simpa [Host.start] using hmalloc
        set count := argValue arg₁ with hdef
        set uu := (rest.head?.map argValue).getD 1 % 2 ^ 32 with hmode
        have hcame : (DumpCall.readMemory (arg₀ :: arg₁ :: filename :: rest)).Came h₁.log ↔
            count < 2 ^ 32 ∧ Granted h₁.log ∧ if uu = 0 then
              (tookBytes h₁.log).length = count ∧ 0 < count ∧ count < 2 ^ 31
              else (ackedBytes h₁.log).length = count := by
          rw [List.head?_eq_getElem?] at hmode
          change (Granted h₁.log ∧ if (rest[0]?.map argValue).getD 1 % 2 ^ 32 = 0 then _ else _) ↔ _
          rw [← hmode]
          split_ifs
          · refine ⟨fun hc => ⟨?_, hc⟩, fun hc => hc.2⟩
            exact Nat.lt_trans hc.2.2.2 (by decide)
          · exact ⟨fun hc => ⟨hc.2.2, hc.1, hc.2.1⟩, fun hc => ⟨hc.2.1, hc.2.2, hc.1⟩⟩
        rw [hcame]
        by_cases hcount : count < 2 ^ 32
        · have hdata : (List.replicate count (none : Cell)).length = (UInt32.ofNat count).toNat := by
            rw [List.length_replicate, UInt32.toNat_ofNat_of_lt' hcount]
          have hr := (ispReadMemory_ends hdata (UInt32.ofNat (argValue arg₀)) uu rfl).ok hread
          rw [← hdata, List.length_replicate] at hr
          obtain ⟨h1, h2⟩ := hr.honest_iff hcount
          exact ⟨fun hc => h1 hc.2, fun hlt hh => ⟨hcount, h2 hlt hh⟩⟩
        · refine ⟨fun hc => absurd hc.1 hcount, fun hlt _ => ?_⟩
          exact absurd (Nat.lt_trans hlt (by decide)) hcount

theorem dumpToFile_dumped (part : PartDesc) (filename : List UInt8) (env : σ)
    (nextReadChar : UInt8) (c c' : ℕ) : Dumped E env (.dump part filename)
      (dumpToFile E part filename (.start env nextReadChar c c')) := by
  unfold dumpToFile
  rw [Run.bind_ok (get_apply _)]
  by_cases hmalloc : (!E.malloc (Host.start env nextReadChar c c').env part.flashSize.toNat) = true
  · rw [if_pos hmalloc]
    refine .nothing rfl (fun ret he => ?_) (.inr (.inl (by simpa [Host.start] using hmalloc)))
    cases he
    decide
  · rw [if_neg hmalloc]
    refine Dumped.of_read hsave (fun _ => part.flashSize) filename rfl
      (fun env' => or_iff_right (by simpa [Host.start] using hmalloc)) fun r h₁ hread => ?_
    have hdata : (List.replicate part.flashSize.toNat (none : Cell)).length = part.flashSize.toNat :=
      List.length_replicate
    have hr := (ispReadMemory_ends hdata part.flashBase part.uuencode.toNat rfl).ok hread
    obtain ⟨hlen, hfits, htake⟩ := hr.stored
    have hcells : cellsAt r.2 part.flashSize.toNat = r.2 := by
      rw [cellsAt_of_le (Nat.le_of_eq hlen.symm), List.take_of_length_le (Nat.le_of_eq hlen)]
    simp only [hcells]
    constructor
    · intro hall
      rw [hall, List.take_of_length_le (Nat.le_of_eq hlen)] at htake
      rw [htake]
      exact ⟨fun _ => ⟨by rwa [List.length_map], List.prefix_rfl⟩, none_not_mem_map _⟩
    · rintro hlt ⟨hret, -⟩
      change part.flashSize.toNat < 2 ^ 31 at hlt
      have hpre := (hret (by rw [toInt_of_lt hlt]; omega)).2.length_le
      rw [List.length_map, hlen] at hpre
      exact Nat.le_antisymm hfits hpre

end Calls

section Refused

/-- `read-memory 0 4 f` -/
def readFour : DumpCall := .readMemory [bytes ['0'], bytes ['4'], bytes ['f']]

end Refused

end LpcTools
