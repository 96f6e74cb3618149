import LpcTools.Proofs.Dump
import LpcTools.Identify

/-!
# What writes no file

Only `isp_buff_to_file` writes a file. All that `lpcprog` does but for the end of a dump leaves the files
as they are, whatever the device does.
-/

namespace LpcTools

open Run Decimal

variable {σ : Type} {α β : Type}

def Unsaved (x : Prog σ α) : Prop := ∀ h, savedCells (final (x h)).log = savedCells h.log

section Rules

theorem Unsaved.pure (a : α) : Unsaved (Pure.pure a : Prog σ α) := fun _ => rfl

theorem Unsaved.throw (e : Fault) : Unsaved (MonadExcept.throw e : Prog σ α) := fun _ => rfl

theorem Unsaved.bind {x : Prog σ α} {f : α → Prog σ β} (hx : Unsaved x) (hf : ∀ a, Unsaved (f a)) :
    Unsaved (x >>= f) := fun h =>
  bind_final (R := fun s t : Host σ => savedCells t.log = savedCells s.log) (fun p q => q.trans p) (hx h)
    fun a t _ => hf a t

theorem Unsaved.map {x : Prog σ α} (g : α → β) (hx : Unsaved x) : Unsaved (g <$> x) := by
  intro h
  rw [final_map]
  exact hx h

theorem Unsaved.ite {p : Prop} [Decidable p] {x y : Prog σ α} (hx : Unsaved x) (hy : Unsaved y) :
    Unsaved (if p then x else y) := by
  split_ifs
  · exact hx
  · exact hy

/-- What comes next depends on the host as it is. -/
theorem Unsaved.get {f : Host σ → Prog σ α} (hf : ∀ h, Unsaved (f h)) : Unsaved (get >>= f) :=
  fun h => hf h h

theorem unsaved_emit {e : Event} (he : e.savedCells = none) : Unsaved (emit e : Prog σ Unit) := by
  intro h
  rw [emit_apply, final_ok, Host.emit_log, savedCells_append, savedCells, savedCells,
    List.filterMap_cons_none he, List.filterMap_nil, List.append_nil]

end Rules

variable {E : Sys σ}

section Requests

theorem unsaved_uninit (n : ℕ) : Unsaved (uninit E n) := fun _ => rfl

theorem unsaved_write (text : List UInt8) : Unsaved (ispSerialWrite E text) :=
  fun h => (ispSerialWrite_polled text h).savedCells

theorem unsaved_read (n m : ℕ) : Unsaved (ispSerialRead E n m) :=
  fun h => (ispSerialRead_polled n m h).savedCells

theorem unsaved_sendRequest (text buf : List UInt8) (n : ℕ) (unsent silent quiet : ℤ) :
    Unsaved (sendRequest E text buf n unsent silent quiet) :=
  .bind (fun h => (savedCells_frame E).askStatus text buf n unsent silent quiet h) fun _ =>
    .bind (unsaved_emit rfl) fun _ => .pure _

theorem unsaved_sendFormatted (size : ℕ) (text : List UInt8) (n : ℕ) (unsent silent quiet : ℤ) :
    Unsaved (sendFormatted E size text n unsent silent quiet) :=
  .bind (unsaved_uninit _) fun _ => unsaved_sendRequest _ _ _ _ _ _

theorem unsaved_ispSendCmdNoArgs (cmd : List UInt8) (quiet : ℤ) :
    Unsaved (ispSendCmdNoArgs E cmd quiet) :=
  .bind (unsaved_uninit _) fun _ => .map _ (unsaved_sendRequest _ _ _ _ _ _)

theorem unsaved_ispSendCmdSectors (cmd : UInt8) (first last quiet : ℤ) :
    Unsaved (ispSendCmdSectors E cmd first last quiet) :=
  .ite (.pure _) (.map _ (unsaved_sendFormatted _ _ _ _ _ _))

theorem unsaved_ispCmdUnlock (quiet : ℤ) : Unsaved (ispCmdUnlock E quiet) :=
  .bind (unsaved_ispSendCmdNoArgs _ _) fun _ => .pure _

theorem unsaved_readMore (n m : ℕ) : Unsaved (readMore E n m) :=
  .bind (unsaved_read _ _) fun _ => .bind (unsaved_emit rfl) fun _ => .pure _

theorem unsaved_readReply (cmd : List UInt8) (quiet : ℤ) (m n : ℕ) (value : List ℕ → ℤ) :
    Unsaved (readReply E cmd quiet m n value) := by
  refine .bind (unsaved_uninit _) fun buf => .bind (unsaved_ispSendCmdNoArgs _ _) fun ret => ?_
  refine .ite (.pure _) (.bind (unsaved_readMore _ _) ?_)
  rintro ⟨len, got⟩
  refine .ite (.pure _) ?_
  rcases readNumbers n (overlay buf 0 got) with _ | vs
  · exact .throw _
  · exact .pure _

end Requests

section Connect

theorem unsaved_drainLine : ∀ (fuel : ℕ) (unused : UInt8) (loops : ℕ),
    Unsaved (drainLine E fuel unused loops)
  | 0, _, _ => .pure _
  | fuel + 1, unused, loops => by
    intro h
    unfold drainLine
    rcases E.read h.env 1 with ⟨(_ | ⟨c, bs⟩) | _ | _, env⟩
    · rfl
    · simp only []
      split_ifs
      · rfl
      · exact unsaved_drainLine fuel c loops { h with env := env }
    · simp only []
      split_ifs
      · exact unsaved_emit rfl { h with env := env }
      · rfl
      · exact unsaved_drainLine fuel unused (loops + 1) { h with env := env }
    · rfl

theorem unsaved_readBehind (unused : UInt8) : Unsaved (readBehind E unused) := by
  intro h
  unfold readBehind
  split_ifs
  · rcases E.read h.env 1 with ⟨(_ | ⟨c, bs⟩) | _ | _, env⟩ <;> rfl
  · rfl

theorem unsaved_ispSerialEmptyBuffer (fuel : ℕ) : Unsaved (ispSerialEmptyBuffer E fuel) := by
  refine .bind (unsaved_drainLine fuel 0 0) fun r => ?_
  rcases r with _ | _ | unused
  · exact .pure _
  · exact .pure _
  · exact .bind (unsaved_readBehind unused) fun unused => .ite (.pure _) (.bind (fun _ => rfl) fun _ => .pure _)

theorem unsaved_exchange (fuel : ℕ) (message : List UInt8) (minRead : ℕ) (buf : List UInt8) :
    Unsaved (exchange E fuel message minRead buf) :=
  .bind (unsaved_write _) fun _ => .bind (unsaved_ispSerialEmptyBuffer fuel) fun _ =>
    .ite (.bind (unsaved_read _ _) fun _ => .pure _) (.pure _)

theorem unsaved_ispConnect (fuel : ℕ) (freq : UInt32) : Unsaved (ispConnect E fuel freq) := by
  refine .bind (unsaved_uninit _) fun buf => .bind (unsaved_write _) fun n => .ite (.pure _) ?_
  refine .bind (unsaved_read _ _) fun r => .ite (.pure _) (.ite (.pure _) ?_)
  refine .bind (unsaved_exchange _ _ _ _) fun r => ?_
  rcases r with _ | buf
  · exact .pure _
  refine .ite (.pure _) (.bind (unsaved_exchange _ _ _ _) fun r => ?_)
  rcases r with _ | buf
  · exact .pure _
  refine .ite (.pure _) (.bind (unsaved_exchange _ _ _ _) fun r => ?_)
  rcases r with _ | buf <;> exact .pure _

theorem unsaved_progConnectAndId (fuel : ℕ) (freq : UInt32) :
    Unsaved (progConnectAndId E fuel freq) := by
  refine .bind (.bind (unsaved_ispConnect _ _) fun r => ?_) fun done =>
    .ite (.map _ (unsaved_readReply _ _ _ _ _)) (.pure _)
  rcases r with _ | ret
  · exact .pure _
  · exact .ite (.bind (unsaved_readReply _ _ _ _ _) fun _ => .pure _) (.pure _)

end Connect

section Commands

variable {part : PartDesc}

theorem unsaved_eraseSectors : ∀ n i : ℕ, Unsaved (eraseSectors E n i)
  | 0, _ => .pure _
  | n + 1, i => by
    refine .bind (unsaved_ispSendCmdSectors _ _ _ _) fun ret => .ite (unsaved_eraseSectors n (i + 1)) ?_
    refine .ite (.pure _) (.bind (unsaved_readMore _ _) fun _ => ?_)
    refine .bind (unsaved_ispSendCmdSectors _ _ _ _) fun ret => .ite (.pure _) ?_
    exact .bind (unsaved_ispSendCmdSectors _ _ _ _) fun ret => .ite (.pure _) (unsaved_eraseSectors n (i + 1))

theorem unsaved_eraseFlash : Unsaved (eraseFlash E part) :=
  .bind (unsaved_ispCmdUnlock _) fun _ => .ite (.pure _) (unsaved_eraseSectors _ _)

theorem unsaved_ispSendBufToRam (data : Mem) (addr : ℕ) (count : UInt32) (uu : ℕ) :
    Unsaved (ispSendBufToRam E data addr count uu) := by
  refine .bind (.map _ (unsaved_sendFormatted _ _ _ _ _ _)) fun ret => .ite (.pure _) (.ite ?_ ?_)
  · rcases (List.range count.toNat).mapM data with _ | bs
    · exact .throw _
    · exact .bind (unsaved_write _) fun n => .bind (unsaved_emit rfl) fun _ => .pure _
  · exact fun h => (savedCells_frame E).sendLoop _ _ _ _ h

theorem unsaved_flashBlocks (data : List UInt8) (writeSize sectorSize ramAddr : UInt32) :
    ∀ n i : ℕ, Unsaved (flashBlocks E part data writeSize sectorSize ramAddr n i)
  | 0, _ => .pure _
  | n + 1, i => by
    refine .ite (.throw _) (.bind (unsaved_ispSendCmdSectors _ _ _ _) fun ret => .ite (.pure _) ?_)
    refine .get fun h => .bind (unsaved_ispSendBufToRam _ _ _ _) fun ret => .ite (.pure _) ?_
    refine .bind (.map _ (unsaved_sendFormatted _ _ _ _ _ _)) fun ret => .ite (.pure _) ?_
    exact unsaved_flashBlocks data writeSize sectorSize ramAddr n (i + 1)

theorem unsaved_patchUserCode (data : List UInt8) (calcUserCode : ℤ) :
    Unsaved (patchUserCode data calcUserCode : Prog σ _) := by
  intro h
  rcases patchUserCode_cases data calcUserCode with ⟨r, hr⟩ | hr <;> rw [hr] <;> rfl

theorem unsaved_flashImage (image : List UInt8) (writeSize sectorSize ramAddr : UInt32)
    (calcUserCode : ℤ) :
    Unsaved (flashImage E part image writeSize sectorSize ramAddr calcUserCode) := by
  refine .bind (unsaved_patchUserCode _ _) fun r => ?_
  rcases r with _ | data
  · exact .pure _
  simp only []
  rcases word data (crpOffset / 4) with _ | crp
  · exact .throw _
  · exact .ite (.pure _) (.ite (.throw _) (.ite (.pure _) (unsaved_flashBlocks _ _ _ _ _ _)))

theorem unsaved_flashTarget (filename : List UInt8) (calcUserCode : ℤ) :
    Unsaved (flashTarget E part filename calcUserCode) := by
  refine .ite (.throw _) (.ite (.pure _) (.ite (.pure _) (.bind unsaved_eraseFlash fun ret => ?_)))
  refine .ite (.pure _) (.get fun h => .ite (.pure _) (.bind (fun h => ?_) ?_))
  · obtain ⟨r, hr⟩ := ispFileToBuff_eq (E := E) part.flashSize.toNat filename h
    rw [hr, final_ok]
  · rintro ⟨size, image⟩
    exact .ite (.pure _) (unsaved_flashImage _ _ _ _ _)

end Commands

end LpcTools
