import Flywheel.Data.Bytes

/-!
# Membership filters of the gossip layer

`XorFilterPlaceholder` and the layered filter it promotes itself to. A filter keeps the
hashed keys of its items; the compact filters are built from the keys on the first query
that needs them and are dropped when a key is added. The keys are asked first, so the
compact filters only ever add positives. BLAKE3 and the `xorf` crate are parameters.
-/

namespace Flywheel.Mesh

open Flywheel.Data
open Std (ExtTreeSet LawfulEqCmp)

/-- What is used of the `xorf` crate. -/
structure Xorf (Xor8 : Type) where
  build : List UInt64 → Xor8
  contains : Xor8 → UInt64 → Bool

/-- `usize::MAX`. -/
def usizeMax : ℕ := 2 ^ 64 - 1

/-- The fields of `LayeredFilterConfig` that the filter reads. -/
structure LayeredFilterConfig where
  bloomBitsPerKey : ℕ
  bloomHashes : ℕ

def LayeredFilterConfig.default : LayeredFilterConfig := ⟨24, 8⟩

structure LayeredReconciliationFilter (Xor8 : Type) where
  config : LayeredFilterConfig
  seed : UInt64
  keys : ExtTreeSet UInt64
  bloomBits : List UInt64
  bloomBitLen : ℕ
  /-- The XOR filter, unless there are no keys. -/
  xor : Option Xor8

def bloomBitLen (keyCount bitsPerKey : ℕ) : ℕ :=
  let bits := max (min (max keyCount 1 * max bitsPerKey 1) usizeMax) 64
  min ((bits + 63) / 64 * 64) usizeMax

structure XorFilterPlaceholder (Xor8 : Type) where
  keys : ExtTreeSet UInt64
  seed : UInt64
  built : Option Xor8
  layered : Option (LayeredReconciliationFilter Xor8)

variable (blake3 : List UInt8 → Bytes 32) {Xor8 : Type} (xorf : Xorf Xor8)

def hashProbe (seed key : UInt64) (probe bitLen : ℕ) : ℕ :=
  leNat ((blake3 (utf8 "FCP-MESH-LAYERED-BLOOM-PROBE-V1" ++ leBytes 8 seed.toNat ++
    leBytes 8 key.toNat ++ [UInt8.ofNat probe])).toList.take 8) % bitLen

/-- The word of a Bloom filter with one bit set. -/
def bloomBit (index : ℕ) : UInt64 := 1 <<< UInt64.ofNat (index % 64)

def insertBloom (bitLen probes : ℕ) (seed : UInt64) (bits : List UInt64) (key : UInt64) :
    List UInt64 :=
  (List.range (max probes 1)).foldl
    (fun bits probe =>
      let index := hashProbe blake3 seed key probe bitLen
      bits.modify (index / 64) (· ||| bloomBit index))
    bits

def bloomContains (bits : List UInt64) (bitLen probes : ℕ) (seed key : UInt64) : Bool :=
  (List.range (max probes 1)).all fun probe =>
    let index := hashProbe blake3 seed key probe bitLen
    bits.getD (index / 64) 0 &&& bloomBit index ≠ 0

namespace LayeredReconciliationFilter

def fromKeys (seed : UInt64) (config : LayeredFilterConfig) (keys : ExtTreeSet UInt64) :
    LayeredReconciliationFilter Xor8 :=
  let bitLen := Mesh.bloomBitLen keys.size config.bloomBitsPerKey
  { config, seed, keys
    bloomBits := keys.toList.foldl (insertBloom blake3 bitLen config.bloomHashes seed)
      (List.replicate ((bitLen + 63) / 64) 0)
    bloomBitLen := bitLen
    xor := if keys.isEmpty then none else some (xorf.build keys.toList) }

def mayContainKey (f : LayeredReconciliationFilter Xor8) (key : UInt64) : Bool :=
  if key ∈ f.keys then true
  else if f.keys.isEmpty ||
      !bloomContains blake3 f.bloomBits f.bloomBitLen f.config.bloomHashes f.seed key then false
  else f.xor.any fun xor => xorf.contains xor key

end LayeredReconciliationFilter

open LayeredReconciliationFilter

namespace XorFilterPlaceholder

def new : XorFilterPlaceholder Xor8 := ⟨∅, 0, none, none⟩

def hashItem (seed : UInt64) (item : List UInt8) : UInt64 :=
  UInt64.ofNat (leNat ((blake3 (leBytes 8 seed.toNat ++ item)).toList.take 8))

variable (f : XorFilterPlaceholder Xor8) (item : List UInt8)

def insert : XorFilterPlaceholder Xor8 :=
  let key := hashItem blake3 f.seed item
  if key ∈ f.keys then f else { f with keys := f.keys.insert key, built := none, layered := none }

def ensureBuilt : XorFilterPlaceholder Xor8 :=
  if f.keys.isEmpty then f
  else
    { f with
      built := some (f.built.getD (xorf.build f.keys.toList))
      layered := some (f.layered.getD
        (fromKeys blake3 xorf f.seed .default f.keys)) }

/-- `may_contain`, with the filter as the query leaves it. -/
def mayContain : Bool × XorFilterPlaceholder Xor8 :=
  let key := hashItem blake3 f.seed item
  if f.keys.isEmpty then (false, f)
  else if key ∈ f.keys then (true, f)
  else
    let f := f.ensureBuilt blake3 xorf
    match f.layered, f.built with
    | some layered, _ => (layered.mayContainKey blake3 xorf key, f)
    | none, some built => (xorf.contains built key, f)
    | none, none => (false, f)

def digest : Bytes 32 :=
  blake3 (utf8 "FCP2-XOR-FILTER-DIGEST-V2" ++ leBytes 8 f.seed.toNat ++
    leBytes 4 (min f.keys.size (2 ^ 32 - 1)) ++
    f.keys.toList.flatMap fun key => leBytes 8 key.toNat)

/-- The compact filters are those of the keys, as far as they are built. -/
structure CachesCurrent (f : XorFilterPlaceholder Xor8) : Prop where
  built_eq : ∀ built, f.built = some built → built = xorf.build f.keys.toList
  layered_eq : ∀ layered, f.layered = some layered →
    layered = fromKeys blake3 xorf f.seed .default f.keys

variable {blake3 xorf} {f g : XorFilterPlaceholder Xor8}

theorem cachesCurrent_of_none (hbuilt : f.built = none) (hlayered : f.layered = none) :
    f.CachesCurrent blake3 xorf where
  built_eq built h := by
    cases hbuilt.symm.trans h
  layered_eq layered h := by
    cases hlayered.symm.trans h

@[simp] theorem seed_insert : (f.insert blake3 item).seed = f.seed := by
  unfold insert
  dsimp only
  split_ifs <;> rfl

/-- The keys after an item is inserted. -/
theorem mem_keys_insert {item : List UInt8} {key : UInt64} :
    key ∈ (f.insert blake3 item).keys ↔ hashItem blake3 f.seed item = key ∨ key ∈ f.keys := by
  unfold insert
  dsimp only
  split_ifs with hmem
  · refine ⟨.inr, ?_⟩
    rintro (rfl | h)
    · exact hmem
    · exact h
  · rw [ExtTreeSet.mem_insert, LawfulEqCmp.compare_eq_iff_eq]

theorem CachesCurrent.insert (h : f.CachesCurrent blake3 xorf) (item : List UInt8) :
    (f.insert blake3 item).CachesCurrent blake3 xorf := by
  unfold XorFilterPlaceholder.insert
  dsimp only
  split_ifs
  · exact h
  · exact cachesCurrent_of_none rfl rfl

@[simp] theorem seed_foldl_insert (items : List (List UInt8)) :
    (items.foldl (insert blake3) f).seed = f.seed := by
  induction items generalizing f with
  | nil => rfl
  | cons item items ih => rw [List.foldl_cons, ih, seed_insert]

theorem mem_keys_foldl_insert {items : List (List UInt8)} {key : UInt64} :
    key ∈ (items.foldl (insert blake3) f).keys ↔
      (∃ item ∈ items, hashItem blake3 f.seed item = key) ∨ key ∈ f.keys := by
  induction items generalizing f with
  | nil => simp
  | cons item items ih =>
    rw [List.foldl_cons, ih, mem_keys_insert, seed_insert]
    simp only [List.exists_mem_cons_iff, or_assoc]
    exact or_left_comm

section

variable (h : f.CachesCurrent blake3 xorf)
include h

theorem CachesCurrent.foldl_insert (items : List (List UInt8)) :
    (items.foldl (XorFilterPlaceholder.insert blake3) f).CachesCurrent blake3 xorf := by
  induction items generalizing f with
  | nil => exact h
  | cons item items ih => exact ih (h.insert item)

/-- Building the compact filters makes them those of the keys. -/
theorem CachesCurrent.ensureBuilt_eq :
    f.ensureBuilt blake3 xorf =
      if f.keys.isEmpty then f
      else ⟨f.keys, f.seed, some (xorf.build f.keys.toList),
        some (fromKeys blake3 xorf f.seed .default f.keys)⟩ := by
  have hbuilt : f.built.getD (xorf.build f.keys.toList) = xorf.build f.keys.toList := by
    cases hcase : f.built with
    | none => rfl
    | some built => exact h.built_eq built hcase
  have hlayered : f.layered.getD
      (fromKeys blake3 xorf f.seed .default f.keys) =
      fromKeys blake3 xorf f.seed .default f.keys := by
    cases hcase : f.layered with
    | none => rfl
    | some layered => exact h.layered_eq layered hcase
  rw [ensureBuilt, hbuilt, hlayered]

/-- A query keeps keys and seed, and the compact filters current. -/
theorem CachesCurrent.mayContain (item : List UInt8) :
    (f.mayContain blake3 xorf item).2.keys = f.keys ∧
      (f.mayContain blake3 xorf item).2.seed = f.seed ∧
      (f.mayContain blake3 xorf item).2.CachesCurrent blake3 xorf := by
  unfold XorFilterPlaceholder.mayContain
  dsimp only
  split_ifs with hempty hmem
  · exact ⟨rfl, rfl, h⟩
  · exact ⟨rfl, rfl, h⟩
  · rw [h.ensureBuilt_eq, if_neg hempty]
    refine ⟨rfl, rfl, fun built heq => ?_, fun layered heq => ?_⟩
    · exact (Option.some.inj heq).symm
    · exact (Option.some.inj heq).symm

end

theorem digest_congr (hkeys : f.keys = g.keys) (hseed : f.seed = g.seed) :
    f.digest blake3 = g.digest blake3 := by
  rw [digest, digest, hkeys, hseed]

/-- A query for an item whose key is there is answered positively. -/
theorem mayContain_of_mem {item : List UInt8} (h : hashItem blake3 f.seed item ∈ f.keys) :
    (f.mayContain blake3 xorf item).1 = true := by
  have hempty : f.keys.isEmpty = false := by
    rw [Bool.eq_false_iff]
    intro hempty
    rw [ExtTreeSet.isEmpty_iff.mp hempty] at h
    exact ExtTreeSet.not_mem_empty h
  unfold mayContain
  rw [if_neg (by simp [hempty]), if_pos h]

end XorFilterPlaceholder

end Flywheel.Mesh
