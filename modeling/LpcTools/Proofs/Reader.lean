import LpcTools.Proofs.Bootloader
import LpcTools.Proofs.Serving

/-!
# A device that can be read

The device of `Bootloader`, which also sends its memory. Besides the memory it has a list of the bytes
that are still to be acknowledged.
-/

namespace LpcTools

open Run Decimal Uuencode

/-- The pieces of the first block of some bytes. -/
def blockPieces (bs : List UInt8) : List (List UInt8) :=
  if bs = [] then []
  else
    let block := bs.take 900
    [textOf (encodedLines (fun i => block.getD i 0) block.length 0), checksumLine block]

theorem slice_getD (bs : List UInt8) : slice (fun i => bs.getD i 0) 0 bs.length = bs := by
  refine List.ext_getElem (slice_length ..) fun i _ h₂ => ?_
  simp [slice, h₂]

theorem awaited_blockPieces (bs : List UInt8) : Awaited bs (blockPieces bs) := by
  unfold Awaited blockPieces
  split_ifs with hbs
  · rfl
  · obtain ⟨-, hstd, hbytes⟩ := encodeLines_total (fun i => (bs.take 900).getD i 0) (bs.take 900).length 0
    refine ⟨_, hstd, ?_, .inl rfl⟩
    rw [hbytes, Nat.sub_zero, slice_getD]

section Reader

/-- The device hears the request for a read. -/
def ReadAsked (d : Chip × List UInt8) (text : List UInt8) : Prop :=
  d.1.expects = none ∧ ∃ range : UInt32 × UInt32,
    twoArgsText 'R'.toUInt8 range.1.toNat range.2.toNat = text

/-- The device hears the acknowledgement of a block. -/
def BlockAcked (d : Chip × List UInt8) (text : List UInt8) : Prop :=
  d.1.expects = none ∧ d.2 ≠ [] ∧ text = dataBlockOk

variable (sector : UInt32 → Option ℕ) (uu : ℕ)

open Classical in
/-- The device with the bytes that it still has to send. -/
noncomputable def reader : Line (Chip × List UInt8) where
  hear := fun d text =>
    if h : ReadAsked d text then
      let bs := slice (d.1.memoryFrom sector h.2.choose.1) 0 h.2.choose.2.toNat
      (statusText 0 :: if uu = 0 then [bs] else blockPieces bs, d.1, bs)
    else if BlockAcked d text then (blockPieces (d.2.drop 900), d.1, d.2.drop 900)
    else
      (((bootloader sector uu).hear d.1 text).1, ((bootloader sector uu).hear d.1 text).2, d.2)
  arrive := fun _ => 1

theorem reader_serves : Serves (reader sector uu) sector uu Prod.fst Prod.snd where
  grant := by
    intro d addr count hidle _
    have hasked : ReadAsked d (twoArgsText 'R'.toUInt8 addr.toNat count.toNat) :=
      ⟨hidle, (addr, count), rfl⟩
    have hchoose : hasked.2.choose = (addr, count) := by
      obtain ⟨-, haddr, hcount⟩ := twoArgsText_inj hasked.2.choose_spec
      exact Prod.ext haddr hcount
    have hheard : (reader sector uu).hear d (twoArgsText 'R'.toUInt8 addr.toNat count.toNat) =
        let bs := slice (d.1.memoryFrom sector addr) 0 count.toNat
        (statusText 0 :: if uu = 0 then [bs] else blockPieces bs, d.1, bs) := by
      simp only [reader, dif_pos hasked, hchoose]
    refine ⟨_, _, hheard, rfl, fun huu => if_pos huu, fun huu => ⟨?_, rfl⟩⟩
    rw [if_neg huu]
    exact awaited_blockPieces _
  next := by
    intro _ d hidle hsends
    have hasked : ¬ ReadAsked d dataBlockOk := by
      rintro ⟨-, range, htext⟩
      exact absurd (List.cons.inj htext).1 (by decide)
    have hacked : BlockAcked d dataBlockOk := ⟨hidle, hsends, rfl⟩
    refine ⟨_, (d.1, d.2.drop 900), ?_, rfl, awaited_blockPieces (d.2.drop 900), rfl⟩
    simp only [reader, dif_neg hasked, if_pos hacked]

variable {sector uu} {d : Chip × List UInt8} {text : List UInt8}

theorem reader_other (hasked : ¬ ReadAsked d text) (hacked : ¬ BlockAcked d text) :
    (reader sector uu).hear d text =
      (((bootloader sector uu).hear d.1 text).1, ((bootloader sector uu).hear d.1 text).2, d.2) := by
  simp only [reader, dif_neg hasked, if_neg hacked]

theorem Command.letter_ne (c : Command) : c.letter ≠ 'R'.toUInt8 ∧ c.letter ≠ 'O'.toUInt8 := by
  cases c <;> simp only [letter] <;> decide

/-- The commands go to the bootloader, and so does all that comes in a transfer. -/
theorem reader_command (c : Command) : (reader sector uu).hear d c.text =
    (((bootloader sector uu).hear d.1 c.text).1, ((bootloader sector uu).hear d.1 c.text).2, d.2) := by
  have hhead := c.head_text
  refine reader_other ?_ ?_
  · rintro ⟨-, range, htext⟩
    rw [← htext] at hhead
    exact c.letter_ne.1 (Option.some.inj hhead).symm
  · rintro ⟨-, -, htext⟩
    rw [htext] at hhead
    exact c.letter_ne.2 (Option.some.inj hhead).symm

theorem reader_transfer (hexpects : d.1.expects ≠ none) (text : List UInt8) :
    (reader sector uu).hear d text =
      (((bootloader sector uu).hear d.1 text).1, ((bootloader sector uu).hear d.1 text).2, d.2) :=
  reader_other (fun h => hexpects h.1) fun h => hexpects h.1

theorem reader_faithful : Faithful (reader sector uu) sector uu Prod.fst where
  prompt := fun t => ⟨0, by omega, Nat.one_pos⟩
  command := by
    intro d c hidle
    obtain ⟨s, hs, reply, d', hhear, hreply, hdone, hrefused⟩ :=
      bootloader_faithful.command d.1 c hidle
    refine ⟨s, hs, reply, (d', d.2), ?_, hreply, hdone, hrefused⟩
    rw [reader_command, hhear]
  block := by
    intro huu d addr n text bs hexpects htext hlen
    obtain ⟨accepted, d', hhear, hchip⟩ := bootloader_faithful.block huu d.1 addr n text bs hexpects htext hlen
    refine ⟨accepted, (d', d.2), ?_, hchip⟩
    rw [reader_transfer (by rw [hexpects]; simp), hhear]
  raw := by
    intro huu d addr n bs hexpects hlen
    obtain ⟨d', hhear, hchip⟩ := bootloader_faithful.raw huu d.1 addr n bs hexpects hlen
    refine ⟨(d', d.2), ?_, hchip⟩
    rw [reader_transfer (by rw [hexpects]; simp), hhear]

theorem reader_willing : Willing (reader sector uu) sector Prod.fst fun _ => 0 where
  command := by
    intro d c hidle hholds
    rw [reader_command]
    exact bootloader_willing.command d.1 c hidle hholds
  few := fun _ => Nat.zero_le 2
  refuse := by
    intro d addr n text bs d' hexpects htext hlen hhear
    rw [reader_transfer (by rw [hexpects]; simp)] at hhear
    have hreplies := (Prod.mk.inj hhear).1
    exact bootloader_willing.refuse d.1 addr n text bs _ hexpects htext hlen (Prod.ext hreplies rfl)

end Reader

end LpcTools
