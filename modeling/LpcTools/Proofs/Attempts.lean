import LpcTools.Transfer
import LpcTools.Lib.Retry

/-!
# The transfers end

A block that is refused or damaged is tried again, up to a limit, and the step back in the `for`
loop brings the loop to the same block again, at block 0 as well. So each block is received at most
4 times and sent at most 3 times, whatever the device does and whatever the counter was at the start
(`transfers_end`).
-/

namespace LpcTools

open Run

variable {σ : Type} (E : Sys σ)

/-- A block loop ends, with at most `k` iterations at each of its blocks and its index never past the
number of blocks. Its last head, where the test of the `for` fails, is no iteration. -/
structure Bounded {α β : Type} (L : Loop Fault (Host σ) α β) (index : α → UInt32) (blocks : UInt32)
    (k : ℕ) (a : α) (h : Host σ) : Prop where
  ends : ∃ p, (L.heads a h).getLast? = some p ∧ L.LeavesWith p (L.run a h)
  turns : (L.heads a h).IsChain fun p q => L.body p.1 p.2 = .ok (.inl q.1) q.2 ∧
    (index q.1 = index p.1 + 1 ∨ index q.1 = index p.1)
  per_block : ∀ b, (L.heads a h).countP (fun p => index p.1 = b) ≤ k
  iterations : (L.heads a h).countP (fun p => index p.1 < blocks) ≤ k * blocks.toNat
  index_le : ∀ p ∈ L.heads a h, index p.1 ≤ blocks
  index_lt : ∀ p ∈ L.heads a h, ∀ a' h', L.body p.1 p.2 = .ok (.inl a') h' → index p.1 < blocks

section Bounded

variable {α β : Type} {L : Loop Fault (Host σ) α β} {index : α → UInt32} {blocks : UInt32} {k : ℕ}
  {tries : Host σ → ℕ}

/-- The turns of a block loop, with the index as it is in the source. -/
def Retried (L : Loop Fault (Host σ) α β) (index : α → UInt32) (blocks : UInt32) (k : ℕ)
    (tries : Host σ → ℕ) : Prop :=
  ∀ a h a' h', L.body a h = .ok (.inl a') h' → index a < blocks ∧
    (index a' = index a + 1 ∧ tries h' = 0 ∨
      index a' = index a ∧ tries h' = tries h + 1 ∧ tries h' < k)

theorem Retried.retries (hL : Retried L index blocks k tries) :
    L.Retries blocks.toNat k (fun a => (index a).toNat) tries := by
  intro a h a' h' hb
  obtain ⟨hlt, hnext⟩ := hL a h a' h' hb
  refine ⟨UInt32.lt_iff_toNat_lt.1 hlt, hnext.imp ?_ ?_⟩
  · exact And.imp_left fun hi => by simp only [hi, toNat_succ_of_lt hlt]
  · exact And.imp_left fun hi => by simp only [hi]

theorem Retried.bounded (hL : Retried L index blocks k tries) (hk : 0 < k) {a : α} {h : Host σ}
    (ha : index a = 0) : Bounded L index blocks k a h where
  ends := Loop.heads_getLast a h
  turns := by
    refine (Loop.heads_isChain a h).imp fun p q hturn => ⟨hturn, ?_⟩
    exact (hL _ _ _ _ hturn).2.imp And.left And.left
  per_block := by
    intro b
    have := hL.retries.countP_index_le hk b.toNat a h
    simpa only [UInt32.toNat_inj] using this
  iterations := by
    have := hL.retries.countP_le hk a h
    simpa only [← UInt32.lt_iff_toNat_lt] using this
  index_le := by
    intro p hp
    have hstart : (index a).toNat ≤ blocks.toNat := by
      rw [ha]
      exact Nat.zero_le _
    exact UInt32.le_iff_toNat_le.2 (hL.retries.index_mem a h hstart hp).2
  index_lt := fun p _ a' h' hb => (hL _ _ a' h' hb).1

end Bounded

theorem receiveLoop_retried (count blocks : UInt32) : Retried (receiveLoop E count blocks)
    ReceiveLocals.i blocks 4 Host.resendRequestForBlock := by
  intro l h l' h' hb
  obtain ⟨hi, hnext⟩ := receiveTurn_inl hb
  refine ⟨hi, hnext.imp_right ?_⟩
  rintro ⟨hsame, hcount, hle⟩
  exact ⟨hsame, hcount, Nat.lt_succ_of_le hle⟩

theorem sendLoop_retried (data : Mem) (count blocks : UInt32) :
    Retried (sendLoop E data count blocks) SendLocals.i blocks 3 Host.resendRequestedForBlock :=
  fun _ _ _ _ hb => sendTurn_inl hb

/-- The block loops of both transfers end, after at most 4 receptions and at most 3 transmissions of
each block. -/
theorem transfers_end (count : UInt32) (h : Host σ) :
    (∀ data buf, Bounded (receiveLoop E count (getNbBlocks count)) ReceiveLocals.i
      (getNbBlocks count) 4 ⟨0, 0, data, buf⟩ h) ∧
    ∀ data, Bounded (sendLoop E data count (getNbBlocks count)) SendLocals.i
      (getNbBlocks count) 3 ⟨0, 0⟩ h :=
  ⟨fun _ _ => (receiveLoop_retried E count _).bounded (by decide) rfl,
    fun data => (sendLoop_retried E data count _).bounded (by decide) rfl⟩

end LpcTools
