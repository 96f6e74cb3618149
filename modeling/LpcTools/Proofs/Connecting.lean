import LpcTools.Connect
import LpcTools.Proofs.Requests
import LpcTools.Lib.Ends

/-!
# What an open session has been acknowledged with

`isp_connect` reads every answer over the one before. The first two are taken for acknowledgements
only if they came, but the third is the same text as the second, so that it passes when nothing comes
at all, and the fourth is not looked at. The line is recorded here as an exchange of messages and
replies.
-/

namespace LpcTools

open Run Decimal Uuencode

/-- What has gone over the line: the messages with the replies to them, and last what the host has
said since with what has come of a reply. -/
structure Talk where
  past : List (List UInt8 × List UInt8)
  said : List UInt8
  heard : List UInt8

namespace Talk

def quiet : Talk := ⟨[], [], []⟩

def exchanges (t : Talk) : List (List UInt8 × List UInt8) := t.past ++ [(t.said, t.heard)]

def say (t : Talk) (bs : List UInt8) : Talk :=
  if t.heard = [] then { t with said := t.said ++ bs }
  else if bs = [] then t
  else ⟨t.exchanges, bs, []⟩

def hear (t : Talk) (bs : List UInt8) : Talk := { t with heard := t.heard ++ bs }

theorem hear_nil (t : Talk) : t.hear [] = t := by
  simp [hear]

theorem hear_hear (t : Talk) (a b : List UInt8) : (t.hear a).hear b = t.hear (a ++ b) := by
  simp [hear]

theorem say_nil (t : Talk) : t.say [] = t := by
  simp [say]

theorem say_say (t : Talk) (a b : List UInt8) : (t.say a).say b = t.say (a ++ b) := by
  by_cases hh : t.heard = []
  · simp [say, hh]
  · rcases a with _ | ⟨c, a⟩
    · rw [say_nil, List.nil_append]
    · simp [say, hh]

/-- A message opens one more exchange at most, and then the one before had its reply. -/
theorem say_past (t : Talk) (bs : List UInt8) : (t.say bs).past.length ≤ t.past.length + 1 ∧
    ((t.say bs).past.length = t.past.length + 1 → t.say bs = ⟨t.exchanges, bs, []⟩) := by
  unfold say
  split_ifs
  · exact ⟨Nat.le_succ _, fun he => absurd he (Nat.ne_of_lt (Nat.lt_succ_self _))⟩
  · exact ⟨Nat.le_succ _, fun he => absurd he (Nat.ne_of_lt (Nat.lt_succ_self _))⟩
  · refine ⟨?_, fun _ => rfl⟩
    rw [exchanges, List.length_append]
    exact Nat.le_refl _

end Talk

variable {σ : Type}

/-- The same system, with a record of its line. -/
def Sys.recorded (E : Sys σ) : Sys (σ × Talk) where
  read := fun s n =>
    match E.read s.1 n with
    | (.data bs, env) => (.data bs, env, s.2.hear bs)
    | (r, env) => (r, env, s.2)
  write := fun s bs =>
    match E.write s.1 bs with
    | (.wrote n, env) => (.wrote n, env, s.2.say (bs.take n))
    | (r, env) => (r, env, s.2)
  stack := fun s => E.stack s.1
  beyond := fun s => E.beyond s.1
  malloc := fun s => E.malloc s.1
  openInput := fun s => E.openInput s.1
  stdin := fun s => E.stdin s.1
  openOutput := fun s => E.openOutput s.1
  save := fun s => E.save s.1
  traceOn := E.traceOn
  read_le := by
    intro s n bs t h
    rcases hr : E.read s.1 n with ⟨_ | _ | _, env⟩ <;> rw [hr] at h <;> cases h
    exact E.read_le hr
  write_le := by
    intro s bs n t h
    rcases hw : E.write s.1 bs with ⟨_ | _ | _, env⟩ <;> rw [hw] at h <;> cases h
    exact E.write_le hw
  save_le := E.save_le
  write_pos := by
    intro s bs n t h
    rcases hw : E.write s.1 bs with ⟨_ | _ | _, env⟩ <;> rw [hw] at h <;> cases h
    exact E.write_pos hw

variable {E : Sys σ}

section Line

theorem recorded_read {s : σ × Talk} {n : ℕ} {r : ReadOutcome} {t : σ × Talk}
    (hr : E.recorded.read s n = (r, t)) : t.2 = s.2.hear (match r with | .data bs => bs | _ => []) := by
  simp only [Sys.recorded] at hr
  rcases hread : E.read s.1 n with ⟨_ | _ | _, env⟩ <;> rw [hread] at hr <;> cases hr
  · rfl
  · exact (Talk.hear_nil _).symm
  · exact (Talk.hear_nil _).symm

theorem recorded_write {s : σ × Talk} {bs : List UInt8} {r : WriteOutcome} {t : σ × Talk}
    (hw : E.recorded.write s bs = (r, t)) :
    t.2 = s.2.say (match r with | .wrote n => bs.take n | _ => []) := by
  simp only [Sys.recorded] at hw
  rcases hwrite : E.write s.1 bs with ⟨_ | _ | _, env⟩ <;> rw [hwrite] at hw <;> cases hw
  · rfl
  · exact (Talk.say_nil _).symm
  · exact (Talk.say_nil _).symm

/-- A write says the start of its message, and all of it if it returns its length. -/
theorem ispSerialWrite_said {buf : List UInt8} (hbuf : buf.length < 2 ^ 31) (h : Host (σ × Talk)) :
    Ends (ispSerialWrite E.recorded buf h) (fun n h' => h'.nextReadChar = h.nextReadChar ∧
      ∃ k ≤ buf.length, h'.env.2 = h.env.2.say (buf.take k) ∧ (n = buf.length → k = buf.length))
      (fun _ _ => False) := by
  refine Loop.ends (I := fun l t => l.count ≤ buf.length ∧ t.nextReadChar = h.nextReadChar ∧
    t.env.2 = h.env.2.say (buf.take l.count)) ?_
    ⟨Nat.zero_le _, rfl, by rw [List.take_zero, Talk.say_nil]⟩
  rintro l t ⟨hle, hnext, htalk⟩
  have hint : toInt l.count = buf.length → l.count = buf.length := by
    rw [toInt_of_lt (by omega)]
    omega
  simp only [serialWriteLoop]
  split
  · rename_i nb env hw
    have hnb := E.recorded.write_le hw
    rw [List.length_drop] at hnb
    have hsay : env.2 = h.env.2.say (buf.take (l.count + nb)) := by
      rw [recorded_write hw, htalk, Talk.say_say, List.take_add]
    split_ifs with hlt
    · exact ⟨by simp only []; omega, hnext, hsay⟩
    · refine ⟨hnext, l.count + nb, by omega, hsay, fun _ => by omega⟩
  · rename_i env hw
    have hsay : env.2 = h.env.2.say (buf.take l.count) := by
      rw [recorded_write hw, Talk.say_nil, htalk]
    split_ifs
    · exact ⟨hnext, l.count, hle, hsay, hint⟩
    · exact ⟨hle, hnext, hsay⟩
    · exact ⟨hnext, l.count, hle, hsay, hint⟩
  · rename_i env hw
    have hsay : env.2 = h.env.2.say (buf.take l.count) := by
      rw [recorded_write hw, Talk.say_nil, htalk]
    refine ⟨hnext, l.count, hle, hsay, fun he => ?_⟩
    omega

/-- What a character kept back puts in front of a read. -/
def keptBack (c : UInt8) : List UInt8 := if c = 0 then [] else [c]

/-- A read stores what it hears, behind the character kept back. -/
theorem ispSerialRead_heard {n m : ℕ} (hmin : m ≤ n) (hpos : 0 < n) (h : Host (σ × Talk)) :
    Ends (ispSerialRead E.recorded n m h) (fun r h' => h'.nextReadChar = 0 ∧
      ∃ bs, h'.env.2 = h.env.2.hear bs ∧ r.2 = keptBack h.nextReadChar ++ bs)
      (fun _ _ => False) := by
  have hloop : ∀ (got : List UInt8) (h₀ : Host (σ × Talk)), h₀.env = h.env →
      h₀.nextReadChar = 0 → got = keptBack h.nextReadChar →
      Ends ((serialReadLoop E.recorded n m).run ⟨got, 0⟩ h₀) (fun r h' => h'.nextReadChar = 0 ∧
        ∃ bs, h'.env.2 = h.env.2.hear bs ∧ r.2 = keptBack h.nextReadChar ++ bs)
        (fun _ _ => False) := by
    intro got h₀ henv hnext hgot
    refine Loop.ends (I := fun l t => t.nextReadChar = 0 ∧
      ∃ bs, t.env.2 = h.env.2.hear bs ∧ l.got = keptBack h.nextReadChar ++ bs) ?_
      ⟨hnext, [], by rw [henv, Talk.hear_nil], by rw [List.append_nil]; exact hgot⟩
    rintro l t ⟨hnext, bs, htalk, hbs⟩
    simp only [serialReadLoop, ReadLocals.test]
    split
    · rename_i new env hr
      have hhear : env.2 = h.env.2.hear (bs ++ new) := by
        rw [recorded_read hr, htalk, Talk.hear_hear]
      have hgot : l.got ++ new = keptBack h.nextReadChar ++ (bs ++ new) := by
        rw [hbs, List.append_assoc]
      split_ifs with hnil hlt
      · subst hnil
        rw [List.append_nil] at hhear
        exact ⟨hnext, bs, hhear, hbs⟩
      · exact ⟨hnext, bs ++ new, hhear, hgot⟩
      · exact ⟨hnext, bs ++ new, hhear, hgot⟩
    · rename_i env hr
      have hhear : env.2 = h.env.2.hear bs := by
        rw [recorded_read hr, htalk, Talk.hear_nil]
      split_ifs <;> exact ⟨hnext, bs, hhear, hbs⟩
    · rename_i env hr
      have hhear : env.2 = h.env.2.hear bs := by
        rw [recorded_read hr, htalk, Talk.hear_nil]
      exact ⟨hnext, bs, hhear, hbs⟩
  unfold ispSerialRead
  rw [if_neg (Nat.not_lt.2 hmin)]
  by_cases h0 : h.nextReadChar = 0
  · rw [if_pos h0]
    exact hloop [] h rfl h0 (by rw [keptBack, if_pos h0])
  · rw [if_neg h0, if_neg (Nat.ne_of_gt hpos)]
    exact hloop _ { h with nextReadChar := 0 } rfl rfl (by rw [keptBack, if_neg h0])

end Line

section Echo

def Unended (bs : List UInt8) : Prop := ∀ c ∈ bs, endsLine c = false

instance (bs : List UInt8) : Decidable (Unended bs) := List.decidableBAll _ bs

theorem unended_decimal (n : ℕ) : Unended (decimal n) := by
  have hdigit : ∀ d < 10, endsLine (digit d) = false := by decide
  obtain ⟨d, ds, hlt, hdec, -⟩ := decimal_digits n
  rw [hdec]
  intro c hc
  obtain ⟨e, he, rfl⟩ := List.mem_map.1 hc
  exact hdigit e (hlt e he)

/-- What follows the first line of a reply. With a carriage return goes the line feed, or the zero
byte, behind it. -/
def afterLine (bs : List UInt8) : List UInt8 :=
  match bs.dropWhile fun c => !endsLine c with
  | [] => []
  | [_] => []
  | c :: d :: rest =>
    if c = '\r'.toUInt8 ∧ (d = '\n'.toUInt8 ∨ d = 0) then rest else d :: rest

theorem afterLine_append {a : List UInt8} (ha : Unended a) (bs : List UInt8) :
    afterLine (a ++ bs) = afterLine bs := by
  have hdrop : (a ++ bs).dropWhile (fun c => !endsLine c) = bs.dropWhile fun c => !endsLine c := by
    refine List.dropWhile_append_of_pos fun c hc => ?_
    rw [ha c hc]
    rfl
  rw [afterLine, hdrop, afterLine]

theorem afterLine_feed (bs : List UInt8) : afterLine ('\n'.toUInt8 :: bs) = bs := by
  rcases bs with _ | ⟨d, bs⟩
  · rfl
  · have hne : ¬ ('\n'.toUInt8 = '\r'.toUInt8 ∧ (d = '\n'.toUInt8 ∨ d = 0)) :=
      fun he => absurd he.1 (by decide)
    simp only [afterLine]
    exact if_neg hne

theorem afterLine_return {d : UInt8} (bs : List UInt8) : afterLine ('\r'.toUInt8 :: d :: bs) =
    if d = '\n'.toUInt8 ∨ d = 0 then bs else d :: bs := by
  by_cases hd : d = '\n'.toUInt8 ∨ d = 0
  · rw [if_pos hd]
    exact if_pos ⟨rfl, hd⟩
  · rw [if_neg hd]
    exact if_neg fun he => hd he.2

/-- What `isp_serial_empty_buffer` takes off the line, and the character it keeps back of it: a line,
the character behind a lone carriage return, or what came before it gave up. -/
inductive Dropped : List UInt8 → UInt8 → Prop
  | feed {a : List UInt8} : Unended a → Dropped (a ++ ['\n'.toUInt8]) 0
  | behind {a : List UInt8} {c : UInt8} : Unended a →
      Dropped (a ++ ['\r'.toUInt8, c]) (if c = '\n'.toUInt8 then 0 else c)
  | bare {a : List UInt8} : Unended a → Dropped (a ++ ['\r'.toUInt8]) '\r'.toUInt8
  | unended {a : List UInt8} {c : UInt8} : Unended a → c = 0 ∨ a.getLast? = some c → Dropped a c

/-- How the loop is left, by what it has taken off the line. -/
def Drained.Of (bs : List UInt8) : Drained → Prop
  | .polling => True
  | .returned => Unended bs
  | .left c => Unended bs ∧ (bs = [] ∧ c = 0 ∨ bs.getLast? = some c) ∨
      ∃ a, bs = a ++ [c] ∧ Unended a ∧ endsLine c = true

theorem Unended.snoc {a : List UInt8} {c : UInt8} (ha : Unended a) (hc : endsLine c = false) :
    Unended (a ++ [c]) := by
  intro d hd
  rcases List.mem_append.1 hd with hd | hd
  · exact ha d hd
  · rw [List.mem_singleton.1 hd]
    exact hc

theorem drainLine_of (talk : Talk) : ∀ (fuel : ℕ) (unused : UInt8) (loops : ℕ) (a : List UInt8)
    (h : Host (σ × Talk)), h.env.2 = talk.hear a → Unended a →
    a = [] ∧ unused = 0 ∨ a.getLast? = some unused → endsLine unused = false →
    Ends (drainLine E.recorded fuel unused loops h) (fun d h' => h'.nextReadChar = h.nextReadChar ∧
      ∃ bs, h'.env.2 = talk.hear bs ∧ d.Of bs) (fun _ _ => False)
  | 0, unused, loops, a, h, htalk, ha, hlast, hend => ⟨rfl, a, htalk, trivial⟩
  | fuel + 1, unused, loops, a, h, htalk, ha, hlast, hend => by
    unfold drainLine
    rcases hr : E.recorded.read h.env 1 with ⟨(_ | ⟨c, bs⟩) | _ | _, env⟩
    · have hhear : env.2 = talk.hear a := by
        rw [recorded_read hr, Talk.hear_nil, htalk]
      exact ⟨rfl, a, hhear, ha⟩
    · obtain rfl : bs = [] := List.length_eq_zero_iff.1 (by
        have := E.recorded.read_le hr
        rw [List.length_cons] at this
        omega)
      have hhear : env.2 = talk.hear (a ++ [c]) := by
        rw [recorded_read hr, htalk, Talk.hear_hear]
      simp only []
      rcases hc : endsLine c
      · exact drainLine_of talk fuel c loops (a ++ [c]) { h with env := env } hhear (ha.snoc hc)
          (.inr (by simp)) hc
      · exact ⟨rfl, a ++ [c], hhear, .inr ⟨a, rfl, ha, hc⟩⟩
    · have hhear : env.2 = talk.hear a := by
        rw [recorded_read hr, Talk.hear_nil, htalk]
      simp only []
      by_cases hloops : 100 < loops
      · rw [if_pos hloops]
        exact ⟨rfl, a, hhear, .inl ⟨ha, hlast⟩⟩
      · rw [if_neg hloops, if_neg (by rw [hend]; decide)]
        exact drainLine_of talk fuel unused (loops + 1) a { h with env := env } hhear ha hlast hend
    · have hhear : env.2 = talk.hear a := by
        rw [recorded_read hr, Talk.hear_nil, htalk]
      exact ⟨rfl, a, hhear, ha⟩

theorem readBehind_heard (unused : UInt8) (h : Host (σ × Talk)) :
    Ends (readBehind E.recorded unused h) (fun c h' => h'.nextReadChar = h.nextReadChar ∧
      (h'.env.2 = h.env.2 ∧ c = unused ∨
        unused = '\r'.toUInt8 ∧ h'.env.2 = h.env.2.hear [c])) (fun _ _ => False) := by
  unfold readBehind
  by_cases hcr : unused = '\r'.toUInt8
  · rw [if_pos hcr]
    rcases hr : E.recorded.read h.env 1 with ⟨(_ | ⟨c, cs⟩) | _ | _, env⟩
    · exact ⟨rfl, .inl ⟨(recorded_read hr).trans (Talk.hear_nil _), rfl⟩⟩
    · obtain rfl : cs = [] := List.length_eq_zero_iff.1 (by
        have := E.recorded.read_le hr
        rw [List.length_cons] at this
        omega)
      exact ⟨rfl, .inr ⟨hcr, recorded_read hr⟩⟩
    · exact ⟨rfl, .inl ⟨(recorded_read hr).trans (Talk.hear_nil _), rfl⟩⟩
    · exact ⟨rfl, .inl ⟨(recorded_read hr).trans (Talk.hear_nil _), rfl⟩⟩
  · rw [if_neg hcr]
    exact ⟨rfl, .inl ⟨rfl, rfl⟩⟩

/-- What is kept back of the line once the loop is left with `c`, and one more read may have come. -/
theorem Drained.Of.dropped {bs : List UInt8} {c : UInt8} (hof : (Drained.left c).Of bs)
    {c' : UInt8} {bs' : List UInt8}
    (hbehind : bs' = bs ∧ c' = c ∨ c = '\r'.toUInt8 ∧ bs' = bs ++ [c']) :
    Dropped bs' (if c' = '\n'.toUInt8 then 0 else c') := by
  rcases hof with ⟨ha, hlast⟩ | ⟨a, rfl, ha, hc⟩
  · have hunended : bs' = bs ∧ c' = c := by
      refine hbehind.resolve_right fun ⟨hcr, _⟩ => ?_
      rcases hlast with ⟨-, h0⟩ | hlast
      · rw [h0] at hcr
        cases hcr
      · have := ha c (List.mem_of_getLast? hlast)
        rw [hcr] at this
        cases this
    obtain ⟨rfl, rfl⟩ := hunended
    split_ifs with hlf
    · exact .unended ha (.inl rfl)
    · exact .unended ha (hlast.imp And.right id)
  · rcases hbehind with ⟨rfl, rfl⟩ | ⟨rfl, rfl⟩
    · simp only [endsLine, Bool.or_eq_true, decide_eq_true_eq] at hc
      rcases hc with rfl | rfl
      · exact .bare ha
      · exact .feed ha
    · rw [List.append_assoc]
      exact .behind ha

theorem ispSerialEmptyBuffer_dropped (fuel : ℕ) (h : Host (σ × Talk)) (h0 : h.nextReadChar = 0) :
    Ends (ispSerialEmptyBuffer E.recorded fuel h) (fun done h' => done = true →
      ∃ bs, h'.env.2 = h.env.2.hear bs ∧ Dropped bs h'.nextReadChar) (fun _ _ => False) := by
  unfold ispSerialEmptyBuffer
  refine Ends.bind (drainLine_of h.env.2 fuel 0 0 [] h (Talk.hear_nil _).symm
    (fun c hc => by cases hc) (.inl ⟨rfl, rfl⟩) (by decide)) ?_
  rintro (_ | _ | c) h₁ ⟨hnext, bs, htalk, hof⟩
  · exact fun hdone => by cases hdone
  · exact fun _ => ⟨bs, htalk, .unended hof (.inl (hnext.trans h0))⟩
  · refine Ends.bind (readBehind_heard c h₁) ?_
    rintro c' h₂ ⟨hnext₂, hbehind⟩
    obtain ⟨bs', htalk₂, hdropped⟩ : ∃ bs', h₂.env.2 = h.env.2.hear bs' ∧
        Dropped bs' (if c' = '\n'.toUInt8 then 0 else c') := by
      rcases hbehind with ⟨hsame, rfl⟩ | ⟨hcr, hmore⟩
      · exact ⟨bs, hsame.trans htalk, hof.dropped (.inl ⟨rfl, rfl⟩)⟩
      · exact ⟨bs ++ [c'], by rw [hmore, htalk, Talk.hear_hear], hof.dropped (.inr ⟨hcr, rfl⟩)⟩
    refine Ends.ite (fun hlf => ?_) (fun hlf => ?_)
    · rw [if_pos hlf, ← h0, ← hnext, ← hnext₂] at hdropped
      exact fun _ => ⟨bs', htalk₂, hdropped⟩
    · rw [if_neg hlf] at hdropped
      exact Ends.bind_ok (modify_apply _ _) fun _ => ⟨bs', htalk₂, hdropped⟩

end Echo

section Exchange

theorem Dropped.suffix {e : List UInt8} {c : UInt8} (hd : Dropped e c) (bs : List UInt8) :
    keptBack c ++ bs <:+ e ++ bs := by
  have hlast : ∀ (a : List UInt8) (c : UInt8), keptBack c ++ bs <:+ a ++ [c] ++ bs := by
    intro a c
    rw [List.append_assoc]
    by_cases hc : c = 0
    · rw [keptBack, if_pos hc]
      exact ⟨a ++ [c], by simp⟩
    · rw [keptBack, if_neg hc]
      exact List.suffix_append a _
  rcases hd with ⟨-⟩ | ⟨-⟩ | ⟨-⟩ | ⟨-, rfl | hc⟩
  · exact List.suffix_append _ bs
  · rename_i a c
    by_cases hlf : c = '\n'.toUInt8
    · rw [if_pos hlf]
      exact List.suffix_append _ bs
    · rw [if_neg hlf]
      have := hlast (a ++ ['\r'.toUInt8]) c
      rwa [List.append_assoc a] at this
  · exact hlast _ _
  · exact List.suffix_append _ bs
  · obtain ⟨a, rfl⟩ := List.getLast?_eq_some_iff.1 hc
    exact hlast a c

theorem afterLine_length (bs : List UInt8) : (afterLine bs).length ≤ bs.length := by
  have hdrop := (List.dropWhile_suffix (fun c => !endsLine c) (l := bs)).length_le
  unfold afterLine
  split
  · exact Nat.zero_le _
  · exact Nat.zero_le _
  · rename_i c d rest heq
    rw [heq] at hdrop
    simp only [List.length_cons] at hdrop
    split_ifs
    · omega
    · rw [List.length_cons]
      omega

/-- What follows the first line of a reply is read. -/
theorem Dropped.afterLine_le {e : List UInt8} {c : UInt8} (hd : Dropped e c) (bs : List UInt8) :
    (afterLine (e ++ bs)).length ≤ (keptBack c ++ bs).length := by
  rcases hd with ⟨ha⟩ | ⟨ha⟩ | ⟨ha⟩ | ⟨ha, -⟩
  · rw [List.append_assoc, afterLine_append ha, List.singleton_append, afterLine_feed]
    exact Nat.le_refl _
  · rename_i a c
    rw [List.append_assoc, afterLine_append ha]
    change (afterLine ('\r'.toUInt8 :: c :: bs)).length ≤ _
    rw [afterLine_return]
    by_cases hlf : c = '\n'.toUInt8
    · rw [if_pos (.inl hlf), if_pos hlf]
      exact Nat.le_refl _
    · rw [if_neg hlf, keptBack]
      by_cases h0 : c = 0
      · rw [if_pos (.inr h0), if_pos h0]
        exact Nat.le_refl _
      · rw [if_neg (not_or.2 ⟨hlf, h0⟩), if_neg h0]
        exact Nat.le_refl _
  · rw [List.append_assoc, afterLine_append ha]
    exact afterLine_length _
  · rw [afterLine_append ha, List.length_append]
    exact Nat.le_trans (afterLine_length bs) (Nat.le_add_left _ _)

/-- What an exchange puts into the reply buffer is the end of what it hears. -/
theorem exchange_heard {fuel m : ℕ} {message buf : List UInt8} (hmessage : message.length < 2 ^ 31)
    (hm : m ≤ repBufsize) (h : Host (σ × Talk)) (h0 : h.nextReadChar = 0) :
    Ends (exchange E.recorded fuel message m buf h) (fun r h' => ∀ buf', r = some buf' →
      h'.nextReadChar = 0 ∧ ∃ k reply got, h'.env.2 = (h.env.2.say (message.take k)).hear reply ∧
        buf' = overlay buf 0 got ∧ got <:+ reply ∧ (afterLine reply).length ≤ got.length)
      (fun _ _ => False) := by
  unfold exchange
  refine Ends.bind (ispSerialWrite_said hmessage h) ?_
  rintro n h₁ ⟨hnext₁, k, -, hsaid, -⟩
  refine Ends.bind (ispSerialEmptyBuffer_dropped fuel h₁ (hnext₁.trans h0)) ?_
  rintro done h₂ hdone
  refine Ends.ite (fun hd => ?_) (fun hd => ?_)
  · obtain ⟨e, htalk₂, hdropped⟩ := hdone hd
    refine Ends.bind (ispSerialRead_heard hm (by decide) h₂) ?_
    rintro ⟨len, got⟩ h₃ ⟨hnext₃, bs, htalk₃, rfl⟩ buf' hbuf
    cases hbuf
    refine ⟨hnext₃, k, e ++ bs, _, ?_, rfl, hdropped.suffix bs, hdropped.afterLine_le bs⟩
    rw [htalk₃, htalk₂, hsaid, Talk.hear_hear]
  · intro buf' hbuf
    cases hbuf

end Exchange

section Connect

/-- The messages of a session that is opened, with the replies to them. -/
def Answered (crystalFreq : UInt32) (t : Talk) (a₁ a₂ a₃ a₄ : List UInt8) : Prop :=
  t.exchanges =
    [(synchroStart, a₁), (synchro, a₂), (freqText crystalFreq, a₃), (synchroEchoOff, a₄)]

/-- A line of the reply is the status 0. -/
def StatusZero (reply : List UInt8) : Prop :=
  ∃ pre post, reply = pre ++ (statusText 0 ++ post) ∧
    ∀ c, pre.getLast? = some c → endsLine c = true

/-- The device has acknowledged the session. -/
def Acknowledged (crystalFreq : UInt32) (t : Talk) : Prop :=
  ∃ a₁ a₂ a₃ a₄, Answered crystalFreq t a₁ a₂ a₃ a₄ ∧ synchro <:+: a₁ ∧ synchroOk <:+: a₂ ∧
    synchroOk <:+: a₃ ∧ StatusZero a₄

/-- Nothing the host does not look at has gone wrong: its messages have gone out, the answer to the
first is not cut short, nor is that to the frequency behind its echo, and the echo has been turned
off. -/
def Undoubted (crystalFreq : UInt32) (t : Talk) : Prop :=
  ∃ a₁ a₂ a₃ a₄, Answered crystalFreq t a₁ a₂ a₃ a₄ ∧ synchro.length ≤ a₁.length ∧
    (synchroOk.length ≤ (afterLine a₃).length ∨ synchroOk <:+: a₃) ∧ StatusZero a₄

/-- Four exchanges are one for each message. -/
theorem exchanges_eq {m₁ m₂ m₃ m₄ r₁ r₂ r₃ r₄ : List UInt8}
    {x₁ x₂ x₃ x₄ : List UInt8 × List UInt8}
    (hx : (((((((Talk.mk [] m₁ r₁).say m₂).hear r₂).say m₃).hear r₃).say m₄).hear r₄).exchanges =
      [x₁, x₂, x₃, x₄]) : x₁ = (m₁, r₁) ∧ x₂ = (m₂, r₂) ∧ x₃ = (m₃, r₃) ∧ x₄ = (m₄, r₄) := by
  obtain ⟨hle₂, heq₂⟩ := (Talk.mk [] m₁ r₁).say_past m₂
  obtain ⟨hle₃, heq₃⟩ := (((Talk.mk [] m₁ r₁).say m₂).hear r₂).say_past m₃
  obtain ⟨hle₄, heq₄⟩ := (((((Talk.mk [] m₁ r₁).say m₂).hear r₂).say m₃).hear r₃).say_past m₄
  have hpast := congrArg List.length hx
  rw [Talk.exchanges, List.length_append] at hpast
  change _ + 1 = 4 at hpast
  simp only [Talk.hear, List.length_nil] at hpast hle₂ hle₃ hle₄ heq₂ heq₃ heq₄ hx
  have h₂ := heq₂ (by omega)
  have h₃ := heq₃ (by omega)
  rw [heq₄ (by omega), h₃, h₂] at hx
  simp only [Talk.exchanges, List.nil_append, List.cons_append, List.cons.injEq, and_true] at hx
  exact ⟨hx.1.symm, hx.2.1.symm, hx.2.2.1.symm, hx.2.2.2.symm⟩

/-- A buffer that starts with as much as was read into it. -/
theorem prefix_of_overlay {text buf got : List UInt8} (hlen : text.length ≤ got.length)
    (htake : (overlay buf 0 got).take text.length = text) : text <+: got := by
  rw [overlay_zero, List.take_append_of_le_length hlen] at htake
  exact List.prefix_iff_eq_take.2 htake.symm

/-- No part of the synchronisation text stands for one of its acknowledgement. -/
theorem length_of_synchro {buf got : List UInt8} (hbuf : buf.take synchro.length = synchro)
    (htake : (overlay buf 0 got).take synchroOk.length = synchroOk) :
    synchroOk.length ≤ got.length := by
  obtain ⟨rest, rfl⟩ : ∃ rest, buf = synchro ++ rest := by
    rw [← List.take_append_drop synchro.length buf, hbuf]
    exact ⟨_, rfl⟩
  rw [overlay_zero] at htake
  by_contra hlt
  rcases got with _ | ⟨c₁, _ | ⟨c₂, _ | ⟨c₃, _ | ⟨c₄, got⟩⟩⟩⟩
  · exact absurd (List.cons.inj htake).1 (by decide)
  · exact absurd (List.cons.inj (List.cons.inj htake).2).1 (by decide)
  · exact absurd (List.cons.inj (List.cons.inj (List.cons.inj htake).2).2).1 (by decide)
  · exact absurd (List.cons.inj (List.cons.inj (List.cons.inj (List.cons.inj htake).2).2).2).1
      (by decide)
  · exact hlt (Nat.le_add_left _ _)

theorem freqText_length (crystalFreq : UInt32) : (freqText crystalFreq).length < 2 ^ 31 :=
  Nat.lt_of_le_of_lt (List.length_take_le _ _) (by decide)

/-- A frequency of five digits is sent whole. -/
theorem freqText_eq {freq : UInt32} (hfreq : freq.toNat < 10 ^ 5) :
    freqText freq = decimal freq.toNat ++ crlf := by
  have hlen := decimal_length_le 4 _ hfreq
  have hint : toInt freq.toNat = freq.toNat := toInt_of_lt (by omega)
  rw [freqText, signedDecimal, hint, if_neg (by omega), Int.natAbs_natCast,
    List.take_of_length_le]
  rw [List.length_append, show crlf.length = 2 from rfl]
  omega

/-- What a session that is opened has been acknowledged with. -/
theorem ispConnect_ends (fuel : ℕ) (crystalFreq : UInt32) (env : σ) (c c' : ℕ) :
    Ends (ispConnect E.recorded fuel crystalFreq (.start (env, .quiet) 0 c c')) (fun r h' =>
      r = some 1 → (Acknowledged crystalFreq h'.env.2 ↔ Undoubted crystalFreq h'.env.2))
      (fun _ _ => False) := by
  have hneg : ∀ {ret : Option ℤ} {h : Host (σ × Talk)}, ret ≠ some 1 → ret = some 1 →
      (Acknowledged crystalFreq h.env.2 ↔ Undoubted crystalFreq h.env.2) :=
    fun hne he => absurd he hne
  unfold ispConnect
  refine Ends.bind_ok (uninit_apply _ _ _) ?_
  refine Ends.bind (ispSerialWrite_said (by decide) _) ?_
  rintro n h₁ ⟨hnext₁, k, hk, hsaid₁, hn⟩
  refine Ends.ite (fun hne => hneg (by decide)) (fun hne => ?_)
  obtain rfl := hn (not_not.1 hne)
  refine Ends.bind (ispSerialRead_heard (by decide) (by decide) h₁) ?_
  rintro ⟨len, got₁⟩ h₂ ⟨hnext₂, r₁, htalk₂, hgot₁⟩
  have hkept : keptBack h₁.nextReadChar = [] := by
    rw [hnext₁]
    rfl
  rw [hkept, List.nil_append] at hgot₁
  change got₁ = r₁ at hgot₁
  subst hgot₁
  rw [hsaid₁, List.take_length] at htalk₂
  change h₂.env.2 = Talk.mk [] synchroStart got₁ at htalk₂
  simp only []
  refine Ends.ite (fun hlen => hneg (by decide)) (fun hlen => ?_)
  refine Ends.ite (fun hne => hneg (by decide)) (fun hsync => ?_)
  rw [not_not] at hsync
  refine Ends.bind (exchange_heard (by decide) (by decide) h₂ hnext₂) ?_
  rintro (_ | buf₂) h₃ hstep₂
  · exact hneg (by decide)
  obtain ⟨hnext₃, k₂, r₂, got₂, htalk₃, hbuf₂, hsuffix₂, -⟩ := hstep₂ buf₂ rfl
  refine Ends.ite (fun hne => hneg (by decide)) (fun hok₂ => ?_)
  rw [not_not, hbuf₂] at hok₂
  refine Ends.bind (exchange_heard (freqText_length crystalFreq) (by decide) h₃ hnext₃) ?_
  rintro (_ | buf₃) h₄ hstep₃
  · exact hneg (by decide)
  obtain ⟨hnext₄, k₃, r₃, got₃, htalk₄, hbuf₃, hsuffix₃, hafter₃⟩ := hstep₃ buf₃ rfl
  refine Ends.ite (fun hne => hneg (by decide)) (fun hok₃ => ?_)
  rw [not_not, hbuf₃] at hok₃
  refine Ends.bind (exchange_heard (by decide) (by decide) h₄ hnext₄) ?_
  rintro (_ | buf₄) h₅ hstep₄
  · exact hneg (by decide)
  obtain ⟨-, k₄, r₄, got₄, htalk₅, -⟩ := hstep₄ buf₄ rfl
  rw [htalk₄, htalk₃, htalk₂] at htalk₅
  intro _
  constructor
  · rintro ⟨a₁, a₂, a₃, a₄, hans, hsync₁, -, hok, hstatus⟩
    exact ⟨a₁, a₂, a₃, a₄, hans, hsync₁.length_le, .inr hok, hstatus⟩
  · rintro ⟨a₁, a₂, a₃, a₄, hans, hlen₁, hcame, hstatus⟩
    obtain ⟨h1, h2, h3, -⟩ := exchanges_eq (htalk₅ ▸ hans)
    refine ⟨a₁, a₂, a₃, a₄, hans, ?_, ?_, ?_, hstatus⟩
    · rw [(Prod.mk.inj h1).2] at hlen₁ ⊢
      exact (prefix_of_overlay hlen₁ hsync).isInfix
    · rw [(Prod.mk.inj h2).2]
      exact (prefix_of_overlay (length_of_synchro hsync hok₂) hok₂).isInfix.trans
        hsuffix₂.isInfix
    · rcases hcame with hlen₃ | hinfix
      · rw [(Prod.mk.inj h3).2] at hlen₃ ⊢
        exact (prefix_of_overlay (Nat.le_trans hlen₃ hafter₃) hok₃).isInfix.trans
          hsuffix₃.isInfix
      · exact hinfix

/-- A session reported open has been acknowledged, unless something went wrong that the host does
not look at. -/
theorem ispConnect_acknowledged_iff (fuel : ℕ) (crystalFreq : UInt32) (env : σ) (c c' : ℕ) :
    let run := ispConnect E.recorded fuel crystalFreq (.start (env, .quiet) 0 c c')
    value run = some (some 1) →
      (Acknowledged crystalFreq (final run).env.2 ↔ Undoubted crystalFreq (final run).env.2) := by
  intro run hvalue
  have hends := ispConnect_ends (E := E) fuel crystalFreq env c c'
  rcases hrun : run with ⟨ret, h'⟩ | ⟨f, h'⟩ <;> rw [hrun] at hvalue
  · exact hends.ok hrun (Option.some.inj hvalue)
  · cases hvalue

/-- A device that opens the session. -/
def opening : List (List UInt8) :=
  [synchro, synchro ++ synchroOk, freqText 10000 ++ synchroOk, synchroEchoOff ++ statusText 0]

theorem ispConnect_opening :
    let run := ispConnect ((scripted fun _ => 100).sys (Sys.plain _)).recorded 100 10000
      (.start (.quiet opening, .quiet) 0 0 0)
    value run = some (some 1) ∧
      (Acknowledged 10000 (final run).env.2 ↔ Undoubted 10000 (final run).env.2) := by
  intro run
  have hvalue : value run = some (some 1) := by decide +kernel
  exact ⟨hvalue, ispConnect_acknowledged_iff (E := (scripted fun _ => 100).sys (Sys.plain _)) 100
    10000 (Wire.quiet opening) 0 0 hvalue⟩

/-- The device falls silent once it has acknowledged the synchronisation. -/
theorem ispConnect_unacknowledged :
    let run := ispConnect ((scripted fun _ => 100).sys (Sys.plain _)).recorded 1000 10000
      (.start (.quiet [synchro, synchro ++ synchroOk], .quiet) 0 0 0)
    value run = some (some 1) ∧ ¬ Acknowledged 10000 (final run).env.2 := by
  intro run
  have hexchanges : (final run).env.2.exchanges = [(synchroStart, synchro),
      (synchro, synchro ++ synchroOk), (freqText 10000 ++ synchroEchoOff, [])] := by decide +kernel
  refine ⟨by decide +kernel, ?_⟩
  rintro ⟨a₁, a₂, a₃, a₄, hans, -⟩
  rw [Answered, hexchanges] at hans
  have hlen : 3 = 4 := congrArg List.length hans
  omega

end Connect

end LpcTools
