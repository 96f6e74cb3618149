import LpcTools.Proofs.BenchHistory

/-!
# Programming by hand

What `lpcprog flash` does can be done with `lpcisp`, a command at a time and with a file for every block:
both leave the same flash (`Bench.by_hand`).
-/

namespace LpcTools

open Run Decimal Refine

/-- A block: its sector is prepared, it goes to the buffer in the RAM, and from there to the flash. -/
def PartDesc.blockOrders (part : PartDesc) (mode : List (List UInt8)) (block : ℕ → FileName) (j : ℕ) :
    List Order :=
  let sector := decimal (part.blockSector j).toNat
  [.prepareForWrite [sector, sector], .writeToRam (decimal part.ramAddr.toNat) (block j) mode,
    .copyRamToFlash
      [decimal (part.blockAddr j).toNat, decimal part.ramAddr.toNat, decimal part.writeSize.toNat]]

/-- What is typed to program `n` blocks, from a reset on. -/
def PartDesc.byHand (part : PartDesc) (mode : List (List UInt8)) (block : ℕ → FileName) (n : ℕ) : List Job :=
  let sectors := [decimal (0 : UInt32).toNat, decimal (part.flashNbSectors - 1).toNat]
  [.reset, .synchronize] ++ ([Order.unlock, .prepareForWrite sectors, .erase sectors] ++
    (List.range n).flatMap (part.blockOrders mode block)).map Job.isp

section Store

variable {part : PartDesc} {s s' : Store} {order : Order} {mode : List (List UInt8)} {block : ℕ → FileName}
  {data : List UInt8} {files : Files} {n j : ℕ}

theorem Order.perform_opened (hopened : s.mode = .opened) (hsome : order.obeyed part s = some s') :
    order.perform part s = s' := by
  rw [Order.perform, hsome, hopened]

theorem Order.perform_prepare (hopened : s.mode = .opened) (args : List (List UInt8)) :
    (Order.prepareForWrite args).perform part s = s := by
  rw [Order.perform, hopened]
  simp only [Order.obeyed]
  rcases sectorRange args with _ | r <;> rfl

/-- The first `n` bytes of the data are in the flash, and the rest of it is blank. -/
structure BlocksIn (part : PartDesc) (files : Files) (data : List UInt8) (n : ℕ) (s : Store) : Prop where
  files : s.files = files
  mode : s.mode = .opened
  flash : s.flash = data.take n ++ .replicate (part.flashSize.toNat - n) 0xFF

/-- The offset of an address from the start of a block. -/
theorem block_offset (base ws : UInt32) {i j : ℕ} (hi : i < 2 ^ 31) (hj : j * ws.toNat < 2 ^ 31) :
    (base + UInt32.ofNat i - (base + UInt32.ofNat j * ws)).toNat =
      if j * ws.toNat ≤ i then i - j * ws.toNat else 2 ^ 32 - (j * ws.toNat - i) := by
  have hsize : (UInt32.ofNat j * ws).toNat = j * ws.toNat := ofNat_mul_toNat (by omega)
  have hbase := base.toNat_lt
  rw [UInt32.toNat_sub, UInt32.toNat_add, UInt32.toNat_add, hsize, UInt32.toNat_ofNat_of_lt' (by
    rw [UInt32.size]
    omega)]
  split_ifs <;> omega

/-- A block is copied behind those that are in the flash. -/
theorem Store.copy_block (hfit : (j + 1) * part.writeSize.toNat ≤ data.length)
    (hlen : data.length ≤ part.flashSize.toNat) (hhigh : part.flashSize.toNat < 2 ^ 31)
    (hflash : s.flash = data.take (j * part.writeSize.toNat) ++
      .replicate (part.flashSize.toNat - j * part.writeSize.toNat) 0xFF)
    (hram : ∀ k < part.writeSize, s.ram (part.ramAddr + k) = data[j * part.writeSize.toNat + k.toNat]?) :
    (s.copy part (part.blockAddr j) part.ramAddr part.writeSize).flash =
      data.take ((j + 1) * part.writeSize.toNat) ++
        .replicate (part.flashSize.toNat - (j + 1) * part.writeSize.toNat) 0xFF := by
  rw [Nat.succ_mul] at hfit ⊢
  simp only [Store.copy, hflash]
  refine List.ext_getElem (by simp; omega) fun i hi _ => ?_
  simp only [List.length_mapIdx, List.length_append, List.length_take, List.length_replicate] at hi
  have hoffset := block_offset part.flashBase part.writeSize (show i < 2 ^ 31 by omega)
    (show j * part.writeSize.toNat < 2 ^ 31 by omega)
  rw [← PartDesc.blockAddr] at hoffset
  have hws : part.writeSize.toNat < 2 ^ 31 := by omega
  rw [List.getElem_mapIdx]
  by_cases hlt : i < j * part.writeSize.toNat
  · rw [if_neg (by omega)] at hoffset
    have hout : ¬ part.flashBase + UInt32.ofNat i - part.blockAddr j < part.writeSize := by
      rw [UInt32.lt_iff_toNat_lt]
      omega
    simp only [if_neg hout]
    rw [List.getElem_append_left (by rw [List.length_take]; omega),
      List.getElem_append_left (by rw [List.length_take]; omega), List.getElem_take, List.getElem_take]
  rw [if_pos (by omega)] at hoffset
  by_cases hin : i < j * part.writeSize.toNat + part.writeSize.toNat
  · have hk : part.flashBase + UInt32.ofNat i - part.blockAddr j < part.writeSize := by
      rw [UInt32.lt_iff_toNat_lt]
      omega
    simp only [if_pos hk]
    rw [hram _ hk, hoffset, Nat.add_sub_cancel' (by omega), List.getElem?_eq_getElem (by omega),
      Option.getD_some, List.getElem_append_left (by rw [List.length_take]; omega), List.getElem_take]
  · have hout : ¬ part.flashBase + UInt32.ofNat i - part.blockAddr j < part.writeSize := by
      rw [UInt32.lt_iff_toNat_lt]
      omega
    simp only [if_neg hout]
    rw [List.getElem_append_right (by rw [List.length_take]; omega),
      List.getElem_append_right (by rw [List.length_take]; omega), List.getElem_replicate,
      List.getElem_replicate]

/-- A block of the data becomes known. -/
theorem Store.write_block (hws : part.writeSize ≠ 0) {blk : List UInt8}
    (hblk : blk.length = part.writeSize.toNat) {k : UInt32} (hk : k < part.writeSize) :
    (s.write part.ramAddr blk).ram (part.ramAddr + k) = blk[k.toNat]? := by
  obtain ⟨h64, h4096, hdvd⟩ := part.writeSize_bounds hws
  have hfour : part.writeSize.toNat % 4 = 0 := by omega
  rw [UInt32.lt_iff_toNat_lt] at hk
  have hwhole : blk.take ramMaxSize = blk := List.take_of_length_le (by rw [hblk, ramMaxSize]; omega)
  have hoffset : part.ramAddr + k - part.ramAddr = k := by
    rw [UInt32.add_comm, UInt32.add_sub_cancel]
  simp only [Store.write, hwhole, hoffset, hblk, wholeWords, hfour, ne_eq, not_true_eq_false, if_false,
    if_pos hk]

theorem copyRange_block (hws : part.writeSize ≠ 0) (hready : part.CopyReady) (j : ℕ) :
    copyRange [decimal (part.blockAddr j).toNat, decimal part.ramAddr.toNat, decimal part.writeSize.toNat] =
      some (part.blockAddr j, part.ramAddr, part.writeSize) := by
  have hcount := (calcWriteSize_count hws).2 ⟨hready.sector, hready.buffer⟩
  have hsize : part.writeSize.toNat % 256 = 0 := by
    rcases hcount with he | he | he | he <;> rw [PartDesc.writeSize, he]
  simp only [copyRange, argValue_decimal, UInt32.ofNat_toNat]
  exact if_pos ⟨blockAddr_mod hready.flash hsize j, hready.ram, (copyBits_of_count hcount).1⟩

/-- The commands of a block put it behind those before. -/
theorem BlocksIn.next (hs : part.Sound) (hready : part.CopyReady)
    (hmode : argMode mode = 0 ↔ part.uuencode.toNat = 0) (hlen : data.length ≤ part.flashSize.toNat)
    (hfit : (j + 1) * part.writeSize.toNat ≤ data.length)
    (hfile : files (block j) = some ((data.drop (j * part.writeSize.toNat)).take part.writeSize.toNat))
    (h : BlocksIn part files data (j * part.writeSize.toNat) s) :
    let orders := (part.blockOrders mode block j).map Job.isp
    Along (Job.perform part) (Job.Defined part) s orders ∧
      BlocksIn part files data ((j + 1) * part.writeSize.toNat) (orders.foldl (Job.perform part) s) := by
  intro orders
  obtain ⟨h64, -, -⟩ := part.writeSize_bounds hs.writes
  obtain ⟨blk, hblk⟩ : ∃ blk, (data.drop (j * part.writeSize.toNat)).take part.writeSize.toNat = blk :=
    ⟨_, rfl⟩
  have hsize : blk.length = part.writeSize.toNat := by
    rw [← hblk, List.length_take, List.length_drop]
    rw [Nat.succ_mul] at hfit
    omega
  have hne : blk ≠ [] := List.ne_nil_of_length_pos (by omega)
  rw [← h.files, hblk] at hfile
  have hram (k : UInt32) (hk : k < part.writeSize) : (s.write part.ramAddr blk).ram (part.ramAddr + k) =
      data[j * part.writeSize.toNat + k.toNat]? := by
    rw [Store.write_block hs.writes hsize hk, ← hblk, List.getElem?_take_of_lt (UInt32.lt_iff_toNat_lt.1 hk),
      List.getElem?_drop]
  have hrange := copyRange_block hs.writes hready j
  -- what the three of them do
  have hprepare (args : List (List UInt8)) : Job.perform part s (.isp (.prepareForWrite args)) = s :=
    Order.perform_prepare h.mode args
  have hwrite : Job.perform part s (.isp (.writeToRam (decimal part.ramAddr.toNat) (block j) mode)) =
      s.write part.ramAddr blk := by
    refine Order.perform_opened h.mode ?_
    simp only [Order.obeyed, argValue_decimal, UInt32.ofNat_toNat, hfile]
    rw [if_pos (show part.ramAddr.toNat % 4 = 0 from hready.ram)]
    simp [hne]
  have hcopy : Job.perform part (s.write part.ramAddr blk) (.isp (.copyRamToFlash [decimal
      (part.blockAddr j).toNat, decimal part.ramAddr.toNat, decimal part.writeSize.toNat])) =
        (s.write part.ramAddr blk).copy part (part.blockAddr j) part.ramAddr part.writeSize := by
    refine Order.perform_opened h.mode ?_
    simp only [Order.obeyed, hrange, Option.map_some]
  simp only [orders, PartDesc.blockOrders, List.map_cons, List.map_nil, List.foldl_cons, List.foldl_nil, Along,
    hprepare, hwrite, hcopy]
  refine ⟨⟨trivial, fun _ => ⟨by rw [hfile]; rfl, fun _ => hmode⟩,
    fun _ dst src count hcount k hk => ?_, trivial⟩,
    h.files, h.mode, Store.copy_block hfit hlen hs.high h.flash hram⟩
  rw [hrange] at hcount
  cases hcount
  rw [Nat.succ_mul] at hfit
  rw [hram k hk, List.getElem?_eq_getElem (by rw [UInt32.lt_iff_toNat_lt] at hk; omega)]
  rfl

/-- Behind the erase there is nothing in the flash. -/
theorem BlocksIn.start (hs : part.Sound) (data : List UInt8) (hlen : s.flash.length = part.flashSize.toNat) :
    let orders := [Job.reset, .synchronize] ++ [Order.unlock, .prepareForWrite [decimal (0 : UInt32).toNat,
      decimal (part.flashNbSectors - 1).toNat], .erase [decimal (0 : UInt32).toNat,
      decimal (part.flashNbSectors - 1).toNat]].map Job.isp
    Along (Job.perform part) (Job.Defined part) s orders ∧
      BlocksIn part s.files data 0 (orders.foldl (Job.perform part) s) := by
  intro orders
  obtain ⟨hpos, -, hmul⟩ := hs.nbSectors
  have hhigh := hs.high
  have hlast : (part.flashNbSectors - 1).toNat = part.flashNbSectors.toNat - 1 := by
    rw [UInt32.toNat_sub_of_le _ _ (by rw [UInt32.le_iff_toNat_le]; exact hpos)]
    rfl
  have hmany : part.flashNbSectors.toNat ≤ part.flashSize.toNat :=
    Nat.le_of_dvd (by have := hs.low; omega) hs.sectors
  have hrange : sectorRange [decimal (0 : UInt32).toNat, decimal (part.flashNbSectors - 1).toNat] =
      some (0, part.flashNbSectors - 1) := by
    simp only [sectorRange, argValue_decimal, UInt32.ofNat_toNat]
    rw [if_pos]
    rw [toInt_of_lt (by decide), toInt_of_lt (by omega)]
    exact_mod_cast Nat.zero_le _
  have hopened : ({ s with ram := fun _ => none, mode := .opened } : Store).mode = .opened := rfl
  have herase : Order.perform part { s with ram := fun _ => none, mode := .opened } (.erase [decimal
      (0 : UInt32).toNat, decimal (part.flashNbSectors - 1).toNat]) =
        Store.erase part { s with ram := fun _ => none, mode := .opened } 0 (part.flashNbSectors - 1) := by
    refine Order.perform_opened hopened ?_
    simp only [Order.obeyed, hrange, Option.map_some]
  have hfold : orders.foldl (Job.perform part) s =
      Store.erase part { s with ram := fun _ => none, mode := .opened } 0 (part.flashNbSectors - 1) := by
    rw [← herase]
    simp only [orders, List.cons_append, List.nil_append, List.map_cons, List.map_nil, List.foldl_cons,
      List.foldl_nil, Job.perform, if_true]
    rw [Order.perform_prepare rfl]
    rfl
  refine ⟨⟨trivial, trivial, trivial, trivial, trivial, trivial⟩, ?_⟩
  rw [hfold]
  refine ⟨rfl, rfl, ?_⟩
  simp only [Store.erase, hlast]
  refine List.ext_getElem (by simp [hlen]) fun i hi _ => ?_
  rw [List.length_mapIdx, hlen] at hi
  have hsector : i / part.sectorSize.toNat < part.flashNbSectors.toNat :=
    Nat.div_lt_of_lt_mul (by rwa [Nat.mul_comm, hmul])
  have hin : (0 : UInt32).toNat ≤ i / part.sectorSize.toNat ∧
      i / part.sectorSize.toNat ≤ part.flashNbSectors.toNat - 1 := ⟨Nat.zero_le _, by omega⟩
  rw [List.getElem_mapIdx]
  simp [hin]

/-- However many blocks there are. -/
theorem BlocksIn.blocks (hs : part.Sound) (hready : part.CopyReady)
    (hmode : argMode mode = 0 ↔ part.uuencode.toNat = 0) (hlen : data.length ≤ part.flashSize.toNat) :
    ∀ {n : ℕ}, n * part.writeSize.toNat ≤ data.length → (∀ j < n, files (block j) =
      some ((data.drop (j * part.writeSize.toNat)).take part.writeSize.toNat)) →
      BlocksIn part files data 0 s →
      let orders := ((List.range n).flatMap (part.blockOrders mode block)).map Job.isp
      Along (Job.perform part) (Job.Defined part) s orders ∧
        BlocksIn part files data (n * part.writeSize.toNat) (orders.foldl (Job.perform part) s)
  | 0, _, _, h => ⟨trivial, by rwa [Nat.zero_mul]⟩
  | n + 1, hfit, hfiles, h => by
    have hle : n * part.writeSize.toNat ≤ data.length := by
      rw [Nat.succ_mul] at hfit
      omega
    obtain ⟨halong, hwritten⟩ := BlocksIn.blocks hs hready hmode hlen hle
      (fun j hj => hfiles j (Nat.lt_succ_of_lt hj)) h
    obtain ⟨halong', hwritten'⟩ := hwritten.next hs hready hmode hlen hfit (hfiles n n.lt_succ_self)
    rw [List.range_succ, List.flatMap_append, List.flatMap_singleton, List.map_append]
    refine ⟨halong.append halong', ?_⟩
    rw [List.foldl_append]
    exact hwritten'

theorem PartDesc.byHand_performs (hs : part.Sound) (hready : part.CopyReady)
    (hmode : argMode mode = 0 ↔ part.uuencode.toNat = 0) (hdata : data.length = n * part.writeSize.toNat)
    (hfit : data.length ≤ part.flashSize.toNat) (hlen : s.flash.length = part.flashSize.toNat)
    (hfiles : ∀ j < n, s.files (block j) =
      some ((data.drop (j * part.writeSize.toNat)).take part.writeSize.toNat)) :
    Along (Job.perform part) (Job.Defined part) s (part.byHand mode block n) ∧
      ((part.byHand mode block n).foldl (Job.perform part) s).flash =
        data ++ .replicate (part.flashSize.toNat - data.length) 0xFF := by
  obtain ⟨halong, hwritten⟩ := BlocksIn.start (s := s) hs data hlen
  obtain ⟨halong', hwritten'⟩ := hwritten.blocks hs hready hmode hfit (Nat.le_of_eq hdata.symm) hfiles
  have hflash := hwritten'.flash
  rw [← hdata, List.take_length] at hflash
  rw [PartDesc.byHand, List.map_append, ← List.append_assoc]
  refine ⟨halong.append halong', ?_⟩
  rw [List.foldl_append]
  exact hflash

end Store

variable {δ : Type} {S : Setup δ} {b : Bench δ} {s : Store}

/-- A history as it is typed, in any worlds. -/
theorem Setup.defined_of_jobs (S : Setup δ) {history : List (World × Job)}
    (h : Along (Job.perform S.part) (Job.Defined S.part) s (history.map Prod.snd)) : S.Defined s history :=
  h.map

theorem Setup.foldl_perform (S : Setup δ) (s : Store) (history : List (World × Job)) :
    history.foldl S.perform s = (history.map Prod.snd).foldl (Job.perform S.part) s := by
  rw [List.foldl_map]
  rfl

/-- With a file for every block of what is to become of an image, `lpcisp` leaves the flash as `lpcprog`
does with the file of the image. -/
theorem Bench.by_hand (S : Setup δ) {b : Bench δ} {s : Store} (hr : Represents S b s)
    (hready : S.part.CopyReady) {calcUserCode : ℤ} {mode : List (List UInt8)}
    (hmode : argMode mode = 0 ↔ S.part.uuencode.toNat = 0) {name : FileName} {content : List UInt8}
    (hfile : b.files name = some content)
    (haccept : S.part.acceptable calcUserCode (content.take S.part.flashSize.toNat) = true)
    {block : ℕ → FileName} {n : ℕ}
    (hn : (nbWrites (content.take S.part.flashSize.toNat) S.part.writeSize).toNat = n)
    (hblocks : ∀ j < n, b.files (block j) =
      some (((S.part.expected (content.take S.part.flashSize.toNat) calcUserCode).drop
        (j * S.part.writeSize.toNat)).take S.part.writeSize.toNat))
    (w : World) {history : List (World × Job)} (hhistory : history.map Prod.snd = S.part.byHand mode block n) :
    ∃ b₁ b₂, history.foldlM (Bench.turn S) b = some b₁ ∧
      [(w, .flash name calcUserCode)].foldlM (Bench.turn S) b = some b₂ ∧
      S.part.contents (S.chip b₁.wire.dev.dev).flash = S.part.contents (S.chip b₂.wire.dev.dev).flash := by
  rw [hr.files] at hfile hblocks
  obtain ⟨image, himage⟩ : ∃ image, content.take S.part.flashSize.toNat = image := ⟨_, rfl⟩
  rw [himage] at haccept hn hblocks
  have hle : image.length ≤ S.part.flashSize.toNat := by
    rw [← himage]
    exact List.length_take_le _ _
  obtain ⟨cksum, v₇, crp, hi⟩ := S.sound.filled_image image
  have hpos := List.length_pos_iff.2 (hi.acceptable_iff.1 haccept).1
  obtain ⟨data, happroved⟩ := S.sound.approved hle haccept
  have hlen := (happroved.take_written S.sound.writes rfl hle hpos).2
  have hfit := S.sound.written_le hle hpos
  rw [← hlen] at hfit
  rw [PartDesc.written, hn] at hlen
  have hcontents : s.flash.length = S.part.flashSize.toNat := by
    rw [← hr.flash]
    exact PartDesc.contents_length
  obtain ⟨halong, hflash⟩ := PartDesc.byHand_performs S.sound hready hmode hlen hfit hcontents hblocks
  rw [← hhistory] at halong hflash
  have hdef : S.Defined s [(w, .flash name calcUserCode)] := ⟨trivial, trivial⟩
  obtain ⟨b₁, hrun₁, hr₁⟩ := (bench_keeps S).run hr (S.defined_of_jobs halong)
  obtain ⟨b₂, hrun₂, hr₂⟩ := (bench_keeps S).run hr hdef
  refine ⟨b₁, b₂, hrun₁, hrun₂, ?_⟩
  rw [hr₁.flash, hr₂.flash]
  change (history.foldl S.perform s).flash = S.part.flashed calcUserCode (s.files name)
  rw [S.foldl_perform, hflash, hfile]
  simp only [PartDesc.flashed, himage, haccept, if_true, PartDesc.written, hn, hlen]

section Sample

/-- The blocks of a file of two of them, in the file `g` and in another. -/
def sampleBlock (j : ℕ) : FileName := if j = 0 then otherName else ⟨['h'.toUInt8], rfl⟩

def blockFiles : Files := fun name =>
  if name = sampleName then some (sixteens 0x800)
  else if name = otherName then some ((lpc1114.expected (sixteens 0x800) 1).take 0x400)
  else some (((lpc1114.expected (sixteens 0x800) 1).drop 0x400).take 0x400)

theorem sixteens_take : (sixteens 0x800).take lpc1114.flashSize.toNat = sixteens 0x800 :=
  List.take_of_length_le (by rw [sixteens_length]; decide)

theorem Bench.by_hand_sample : ∃ b₁ b₂,
    ((lpc1114.byHand [] sampleBlock 2).map (plainWorld, ·)).foldlM (Bench.turn sampleSetup)
        ⟨blockFiles, sampleBench.wire⟩ = some b₁ ∧
      [(plainWorld, Job.flash sampleName 1)].foldlM (Bench.turn sampleSetup) ⟨blockFiles, sampleBench.wire⟩ =
        some b₂ ∧
      lpc1114.contents b₁.wire.dev.dev.1.flash = lpc1114.contents b₂.wire.dev.dev.1.flash := by
  have hready : lpc1114.CopyReady := ⟨by decide, by decide, by decide, by decide⟩
  have hmode : argMode [] = 0 ↔ lpc1114.uuencode.toNat = 0 := by decide
  have haccept : lpc1114.acceptable 1 ((sixteens 0x800).take lpc1114.flashSize.toNat) = true := by
    obtain ⟨cksum, v₇, hi⟩ := sixteens_image (show 0x300 ≤ 0x800 by omega)
    have hfill : Image (filled lpc1114 (sixteens 0x800)) cksum v₇ 0x2F2F2F2F := hi.fill
    rw [sixteens_take, hfill.acceptable_iff]
    exact ⟨sixteens_ne (by omega), .inl rfl, by decide⟩
  have htwo : (nbWrites ((sixteens 0x800).take lpc1114.flashSize.toNat) lpc1114.writeSize).toNat = 2 := by
    rw [sixteens_take, nbWrites, sixteens_length]
    rfl
  have hsize : lpc1114.writeSize.toNat = 0x400 := by decide
  have hblocks : ∀ j < 2, blockFiles (sampleBlock j) =
      some (((lpc1114.expected ((sixteens 0x800).take lpc1114.flashSize.toNat) 1).drop
        (j * lpc1114.writeSize.toNat)).take lpc1114.writeSize.toNat) := by
    intro j hj
    rw [sixteens_take, hsize]
    rcases j with _ | _ | j
    · rw [Nat.zero_mul, List.drop_zero]
      rfl
    · rfl
    · omega
  have hhistory : ((lpc1114.byHand [] sampleBlock 2).map ((plainWorld, ·))).map Prod.snd =
      lpc1114.byHand [] sampleBlock 2 := by
    rw [List.map_map]
    exact List.map_id _
  exact Bench.by_hand sampleSetup (sampleBench_represents.withFiles blockFiles) hready hmode
    (show blockFiles sampleName = some (sixteens 0x800) from rfl) haccept htwo hblocks plainWorld hhistory

end Sample

end LpcTools
