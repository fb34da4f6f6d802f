import BumbleBee.Library.ByteCodec
import BumbleBee.Storage.SlottedPage

/-!
The catalog record on disk: cut over a chain of pages of which the first is page 0. A
record needs as many pages as its bytes fill, a chain that is too short grows by pages
allocated for it, and one that is too long keeps its spare pages, linked and empty.
The total length is stored in 32 bits.
-/

namespace BumbleBee.Metadata
open Library.ByteCodec Storage.SlottedPage Function

def putI32 (v : Int) : Bytes := littleEndian 4 (v % 4294967296).toNat

def getI32 (bytes : Bytes) : Option (Int × Bytes) :=
  (readWord 4 bytes).map fun r => (if r.1 < 2147483648 then (r.1 : Int) else r.1 - 4294967296, r.2)

def kMagic : Nat := 0xB0BDB001

def kCatalogRootPage : Int := 0

def kRootPayload : Nat := pageSize - 12

def kChainPayload : Nat := pageSize - 4

/-- The pages of the file, the chain of the catalog and the next page to allocate. -/
structure CatalogFile where
  disk : Int → Bytes
  catalogPages : List Int
  nextPageId : Int

def pagesNeeded (size : Nat) : Nat :=
  if kRootPayload < size then 1 + (size - kRootPayload + kChainPayload - 1) / kChainPayload else 1

/-- The pages `AllocateRawPageId` hands out one after the other. -/
def rawPages (first : Int) : Nat → List Int
  | 0 => []
  | count + 1 => first :: rawPages (first + 1) count

def catalogPage (header payload : Bytes) : Bytes :=
  header ++ (payload ++ List.replicate (pageSize - (header.length + payload.length)) 0)

/-- The loop over the chain pages: `lead` stands before the next pointer, `record` is what is left. -/
def writeChain (disk : Int → Bytes) (cap : Nat) (lead : Bytes) : List Int → Bytes → Int → Bytes
  | [], _ => disk
  | id :: rest, record =>
    writeChain (update disk id (catalogPage (lead ++ putI32 (rest.headD invalidPageId)) (record.take cap)))
      kChainPayload [] rest (record.drop cap)

/-- The record's size as 32 bits hold it. -/
def storedLength (record : Bytes) : Nat := record.length % 4294967296

def CatalogFile.missing (f : CatalogFile) (record : Bytes) : Nat := pagesNeeded record.length - f.catalogPages.length

def CatalogFile.writeCatalogChain (f : CatalogFile) (record : Bytes) : CatalogFile where
  disk := writeChain f.disk kRootPayload
    (littleEndian 4 kMagic ++ littleEndian 4 (storedLength record))
    (f.catalogPages ++ rawPages f.nextPageId (f.missing record)) record
  catalogPages := f.catalogPages ++ rawPages f.nextPageId (f.missing record)
  nextPageId := f.nextPageId + f.missing record

/-- The loop over the next pointers; `none` when a page is truncated or the chain does not end. -/
def followChain (disk : Int → Bytes) (total : Nat) : Nat → Int → List Int → Bytes → Option (List Int × Bytes)
  | 0, _, _, _ => none
  | fuel + 1, next, pages, record =>
    if next = invalidPageId then some (pages, record)
    else
      (getI32 (disk next)).bind fun body =>
        followChain disk total fuel body.1 (pages ++ [next])
          (if record.length < total then record ++ body.2.take (min kChainPayload (total - record.length))
            else record)

/-- Inside, `none` stands for a file without a catalog. -/
def readCatalogChain (disk : Int → Bytes) (fuel : Nat) : Option (Option (List Int × Bytes)) :=
  (readWord 4 (disk kCatalogRootPage)).bind fun magic =>
    if magic.1 = kMagic then
      (readWord 4 magic.2).bind fun total =>
        (getI32 total.2).bind fun head =>
          (followChain disk total.1 fuel head.1 [kCatalogRootPage]
            (head.2.take (min kRootPayload total.1))).map some
    else some none

/-- The chain starts at the root and has distinct pages, all of them allocated. -/
structure CatalogFile.Wf (f : CatalogFile) : Prop where
  root : f.catalogPages.head? = some kCatalogRootPage
  nodup : f.catalogPages.Nodup
  allocated : ∀ id ∈ f.catalogPages, 0 ≤ id ∧ id < f.nextPageId

theorem getI32_append {v : Int} (low : -2147483648 ≤ v) (high : v < 2147483648) (rest : Bytes) :
    getI32 (putI32 v ++ rest) = some (v, rest) := by
  have small : (v % 4294967296).toNat < 256 ^ 4 := by omega
  rw [getI32, putI32, readWord_append small, Option.map_some, Option.some.injEq, Prod.mk.injEq]
  refine ⟨?_, rfl⟩
  split_ifs <;> omega

theorem mem_rawPages {first id : Int} {count : Nat} : id ∈ rawPages first count ↔ first ≤ id ∧ id < first + count := by
  induction count generalizing first with
  | zero =>
    exact ⟨fun member => absurd member List.not_mem_nil, fun inside => by omega⟩
  | succ count ih =>
    rw [rawPages, List.mem_cons, ih]
    omega

theorem nodup_rawPages (first : Int) (count : Nat) : (rawPages first count).Nodup := by
  induction count generalizing first with
  | zero => exact List.nodup_nil
  | succ count ih =>
    refine List.nodup_cons.mpr ⟨fun member => ?_, ih (first + 1)⟩
    have above := (mem_rawPages.mp member).1
    omega

theorem length_rawPages (first : Int) (count : Nat) : (rawPages first count).length = count := by
  induction count generalizing first with
  | zero => rfl
  | succ count ih => rw [rawPages, List.length_cons, ih]

/-- The chain's pages hold the record and point to each other in order. -/
def Chained (disk : Int → Bytes) (cap : Nat) (lead : Bytes) : List Int → Bytes → Prop
  | [], _ => True
  | id :: rest, record =>
    disk id = catalogPage (lead ++ putI32 (rest.headD invalidPageId)) (record.take cap) ∧
      Chained disk kChainPayload [] rest (record.drop cap)

variable {pages : List Int}

theorem writeChain_apart {id : Int} (apart : id ∉ pages) (disk : Int → Bytes) (cap : Nat)
    (lead record : Bytes) : writeChain disk cap lead pages record id = disk id := by
  induction pages generalizing disk cap lead record with
  | nil => rfl
  | cons first rest ih =>
    rw [writeChain, ih (fun member => apart (List.mem_cons_of_mem first member)),
      update_of_ne (fun same : id = first => apart (same ▸ List.mem_cons_self))]

theorem writeChain_chained (nodup : pages.Nodup) (disk : Int → Bytes) (cap : Nat)
    (lead record : Bytes) : Chained (writeChain disk cap lead pages record) cap lead pages record := by
  induction pages generalizing disk cap lead record with
  | nil => trivial
  | cons id rest ih =>
    obtain ⟨apart, distinct⟩ := List.nodup_cons.mp nodup
    refine ⟨?_, ih distinct _ _ _ _⟩
    rw [writeChain, writeChain_apart apart, update_self]

theorem getI32_link (valid : ∀ id ∈ pages, 0 ≤ id ∧ id < 2147483648) (rest : Bytes) :
    getI32 (putI32 (pages.headD invalidPageId) ++ rest) = some (pages.headD invalidPageId, rest) := by
  cases pages with
  | nil => exact getI32_append (by decide) (by decide) rest
  | cons next _ =>
    have range := valid next List.mem_cons_self
    exact getI32_append (Int.le_trans (by decide) range.1) range.2 rest

theorem take_append_le {cap wanted : Nat} {record : Bytes} (inside : wanted ≤ record.length) (rest : Bytes) :
    (record.take cap ++ rest).take (min cap wanted) = record.take (min cap wanted) := by
  rw [List.take_append_of_le_length (by rw [List.length_take]; omega), List.take_take,
    Nat.min_eq_left (Nat.min_le_left _ _)]

theorem take_min_append (n m : Nat) (bytes : Bytes) :
    bytes.take (min n m) ++ (bytes.drop n).take (m - n) = bytes.take m := by
  rcases Nat.le_total n m with less | more
  · rw [Nat.min_eq_left less, ← List.take_add, Nat.add_sub_cancel' less]
  · rw [Nat.min_eq_right more, Nat.sub_eq_zero_of_le more, List.take_zero, List.append_nil]

theorem take_payload {total : Nat} {record rest : Bytes} (within : total - record.length ≤ rest.length) (spare : Bytes) :
    (if record.length < total then
      record ++ (rest.take kChainPayload ++ spare).take (min kChainPayload (total - record.length)) else record) =
      record ++ rest.take (min kChainPayload (total - record.length)) := by
  split_ifs with short
  · rw [take_append_le within]
  · rw [Nat.sub_eq_zero_of_le (Nat.not_lt.mp short), Nat.min_zero, List.take_zero, List.append_nil]

theorem followChain_chained (total : Nat) {disk : Int → Bytes} {rest : Bytes}
    (chained : Chained disk kChainPayload [] pages rest) (valid : ∀ id ∈ pages, 0 ≤ id ∧ id < 2147483648)
    {fuel : Nat} (fuelled : pages.length < fuel) (before : List Int) (record : Bytes)
    (within : total - record.length ≤ rest.length) (enough : total - record.length ≤ pages.length * kChainPayload) :
    followChain disk total fuel (pages.headD invalidPageId) before record =
      some (before ++ pages, record ++ rest.take (total - record.length)) := by
  obtain ⟨fuel, rfl⟩ : ∃ n, fuel = n + 1 := ⟨fuel - 1, by omega⟩
  induction pages generalizing fuel before record rest with
  | nil =>
    rw [List.length_nil, Nat.zero_mul, Nat.le_zero] at enough
    rw [enough, List.take_zero, List.append_nil, List.append_nil]
    rfl
  | cons id pages ih =>
    obtain ⟨stored, onward⟩ := chained
    obtain ⟨fuel, rfl⟩ : ∃ n, fuel = n + 1 := ⟨fuel - 1, by rw [List.length_cons] at fuelled; omega⟩
    have range := valid id List.mem_cons_self
    have real : id ≠ invalidPageId := fun same => absurd (same ▸ range.1) (by decide)
    have size : total - (record ++ rest.take (min kChainPayload (total - record.length))).length =
        total - record.length - kChainPayload := by
      rw [List.length_append, List.length_take]
      omega
    rw [List.length_cons, Nat.succ_mul] at enough
    have loop := ih onward (fun next member => valid next (List.mem_cons_of_mem id member)) (before ++ [id])
      (record ++ rest.take (min kChainPayload (total - record.length)))
      (by rw [List.length_drop]; omega) (by rw [size]; omega) fuel (Nat.lt_of_succ_lt_succ fuelled)
    rw [List.headD_cons, followChain, if_neg real, stored, catalogPage, List.nil_append,
      getI32_link fun next member => valid next (List.mem_cons_of_mem id member), Option.bind_some]
    rw [take_payload within, loop, size, List.append_assoc, List.append_assoc, take_min_append]
    rfl

namespace CatalogFile
variable {f : CatalogFile} {record : Bytes}

theorem Wf.written (wf : f.Wf) (record : Bytes) : (f.writeCatalogChain record).Wf := by
  obtain ⟨rest, pages⟩ := List.head?_eq_some_iff.mp wf.root
  constructor
  · rw [writeCatalogChain, pages]
    rfl
  · refine List.nodup_append.mpr ⟨wf.nodup, nodup_rawPages _ _, ?_⟩
    intro id old _ new same
    have below := wf.allocated id old
    have above := mem_rawPages.mp (same ▸ new)
    omega
  · intro id member
    rcases List.mem_append.mp member with old | new
    · have below := wf.allocated id old
      dsimp only [writeCatalogChain]
      omega
    · have least := wf.allocated kCatalogRootPage (pages ▸ List.mem_cons_self)
      have above := mem_rawPages.mp new
      dsimp only [writeCatalogChain] at *
      omega

/-- The pages are enough for the bytes beyond the root page. -/
theorem pagesNeeded_enough (size : Nat) : size - kRootPayload ≤ (pagesNeeded size - 1) * kChainPayload := by
  unfold pagesNeeded
  split_ifs with more
  · have whole := Nat.div_add_mod (size - kRootPayload + kChainPayload - 1) kChainPayload
    have part := Nat.mod_lt (size - kRootPayload + kChainPayload - 1) (by decide : 0 < kChainPayload)
    rw [Nat.add_sub_cancel_left, Nat.mul_comm]
    omega
  · rw [Nat.sub_eq_zero_of_le (Nat.not_lt.mp more)]
    exact Nat.zero_le _

/-- Reading follows exactly the chain's pages; the record comes back up to its stored length. -/
theorem Wf.read_written (wf : f.Wf) (room : f.nextPageId + f.missing record ≤ 2147483648) {fuel : Nat}
    (fuelled : (f.writeCatalogChain record).catalogPages.length ≤ fuel) :
    readCatalogChain (f.writeCatalogChain record).disk fuel =
      some (some ((f.writeCatalogChain record).catalogPages, record.take (storedLength record))) := by
  have written := wf.written record
  obtain ⟨rest, pages⟩ := List.head?_eq_some_iff.mp written.root
  have chained : Chained (f.writeCatalogChain record).disk kRootPayload
      (littleEndian 4 kMagic ++ littleEndian 4 (storedLength record))
      (f.writeCatalogChain record).catalogPages record := writeChain_chained written.nodup _ _ _ _
  have valid (id : Int) (member : id ∈ rest) : 0 ≤ id ∧ id < 2147483648 := by
    have range := written.allocated id (pages ▸ List.mem_cons_of_mem _ member)
    exact ⟨range.1, Int.lt_of_lt_of_le range.2 room⟩
  have long : pagesNeeded record.length - 1 ≤ rest.length := by
    have grown : (f.writeCatalogChain record).catalogPages.length = f.catalogPages.length + f.missing record := by
      rw [writeCatalogChain, List.length_append, length_rawPages]
    rw [pages, List.length_cons, missing] at grown
    omega
  rw [pages] at chained fuelled ⊢
  obtain ⟨stored, onward⟩ := chained
  have least : storedLength record ≤ record.length := Nat.mod_le _ _
  have small : storedLength record < 256 ^ 4 := Nat.mod_lt _ (by decide)
  have part : (record.take (min kRootPayload (storedLength record))).length =
      min kRootPayload (storedLength record) := by
    rw [List.length_take]
    omega
  have rest' : storedLength record - min kRootPayload (storedLength record) = storedLength record - kRootPayload := by
    omega
  have enough := (pagesNeeded_enough record.length).trans (Nat.mul_le_mul_right kChainPayload long)
  have loop := followChain_chained (storedLength record) onward valid fuelled [kCatalogRootPage]
    (record.take (min kRootPayload (storedLength record))) (by rw [List.length_drop]; omega) (by rw [part]; omega)
  rw [readCatalogChain, stored, catalogPage, List.append_assoc, List.append_assoc,
    readWord_append (by decide), Option.bind_some]
  rw [if_pos rfl, readWord_append small, Option.bind_some]
  rw [getI32_link valid, Option.bind_some]
  rw [take_append_le least, loop, part, rest', take_min_append]
  rfl

end CatalogFile

/-- A record of fewer than 2³² bytes, and no other, is read back from the chain it was written to; the
chain is the old one and pages allocated for it, no other page changes, and reading follows no other. -/
theorem catalog_chain_round_trip {f : CatalogFile} (wf : f.Wf) (record : Bytes)
    (room : f.nextPageId + f.missing record ≤ 2147483648) :
    (∃ grown, (f.writeCatalogChain record).catalogPages = f.catalogPages ++ grown ∧
      ∀ id ∈ grown, f.nextPageId ≤ id ∧ id < (f.writeCatalogChain record).nextPageId) ∧
    (∀ id ∉ (f.writeCatalogChain record).catalogPages, (f.writeCatalogChain record).disk id = f.disk id) ∧
    ∃ got, (∀ fuel, (f.writeCatalogChain record).catalogPages.length ≤ fuel →
      readCatalogChain (f.writeCatalogChain record).disk fuel =
        some (some ((f.writeCatalogChain record).catalogPages, got))) ∧
      (got = record ↔ record.length < 4294967296) := by
  refine ⟨⟨_, rfl, fun id member => mem_rawPages.mp member⟩, fun id apart => writeChain_apart apart _ _ _ _,
    record.take (storedLength record), fun fuel fuelled => wf.read_written room fuelled, ?_⟩
  rw [List.take_eq_self_iff, storedLength]
  omega

/-- A file whose catalog is the root page alone. -/
def rootOnly : CatalogFile := ⟨fun _ => [], [kCatalogRootPage], 1⟩

theorem wf_rootOnly : rootOnly.Wf := by
  refine ⟨rfl, by decide, ?_⟩
  intro id member
  rw [List.mem_singleton.mp member]
  decide

/-- A file whose catalog once took three pages. -/
def threePages : CatalogFile := ⟨fun _ => [], [kCatalogRootPage, 2, 1], 3⟩

theorem wf_threePages : threePages.Wf := by
  refine ⟨rfl, by decide, ?_⟩
  intro id member
  simp only [threePages, List.mem_cons, List.not_mem_nil, or_false] at member
  rcases member with rfl | rfl | rfl <;> decide

/-- A record one byte longer than the root page takes: over a chain that is too short and over one that is too long. -/
theorem catalog_chain_round_trip_cut :
    (∀ fuel, 2 ≤ fuel → readCatalogChain (rootOnly.writeCatalogChain (List.replicate 8181 7)).disk fuel =
      some (some ([0, 1], List.replicate 8181 7))) ∧
    ∀ fuel, 3 ≤ fuel → readCatalogChain (threePages.writeCatalogChain (List.replicate 8181 7)).disk fuel =
      some (some ([0, 2, 1], List.replicate 8181 7)) := by
  have grown : (rootOnly.writeCatalogChain (List.replicate 8181 7)).catalogPages = [0, 1] := by
    rw [CatalogFile.writeCatalogChain, CatalogFile.missing, List.length_replicate]
    decide
  have spare : (threePages.writeCatalogChain (List.replicate 8181 7)).catalogPages = [0, 2, 1] := by
    rw [CatalogFile.writeCatalogChain, CatalogFile.missing, List.length_replicate]
    decide
  obtain ⟨-, -, short, fromShort, wholeShort⟩ := catalog_chain_round_trip wf_rootOnly (List.replicate 8181 7)
    (by rw [CatalogFile.missing, List.length_replicate]; decide)
  obtain ⟨-, -, long, fromLong, wholeLong⟩ := catalog_chain_round_trip wf_threePages (List.replicate 8181 7)
    (by rw [CatalogFile.missing, List.length_replicate]; decide)
  rw [grown, wholeShort.mpr (by rw [List.length_replicate]; decide)] at fromShort
  rw [spare, wholeLong.mpr (by rw [List.length_replicate]; decide)] at fromLong
  exact ⟨fromShort, fromLong⟩

/-- The length of 2³² bytes is stored as 0, and nothing is read back. -/
theorem catalog_record_lost : ∃ record : Bytes, record.length = 4294967296 ∧
    ∀ fuel, (rootOnly.writeCatalogChain record).catalogPages.length ≤ fuel →
      readCatalogChain (rootOnly.writeCatalogChain record).disk fuel =
        some (some ((rootOnly.writeCatalogChain record).catalogPages, [])) := by
  refine ⟨List.replicate 4294967296 0, List.length_replicate, ?_⟩
  intro fuel fuelled
  have room : rootOnly.nextPageId + rootOnly.missing (List.replicate 4294967296 0) ≤ 2147483648 := by
    rw [CatalogFile.missing, List.length_replicate]
    decide
  rw [wf_rootOnly.read_written room fuelled, storedLength, List.length_replicate, Nat.mod_self, List.take_zero]

end BumbleBee.Metadata
