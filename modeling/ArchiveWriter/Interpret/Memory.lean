import ArchiveWriter.Interpret.Driver
import Mathlib.Algebra.Order.BigOperators.Group.List

/-!
# Stack slots and data objects

Two places where `interpret.rs` computes addresses itself.

`push_frame` gives a frame `sum::<u32>()` bytes for its stack slots, and `stack_address`
puts slot `k` at the `u64` sum of the sizes of the slots before it. Every access inside a
slot then lies in the frame's memory exactly when the sizes sum below 2^32: past that the
`u32` sum wraps and the memory is too small for the last slot
(`stack_accesses_in_frame_iff`). Two different slots never share a byte
(`stack_slots_disjoint`).

Before the run, `run_interpret` patches the relocations of every data object, writing
each value through the address of the object's first byte. The relocation's offset is
never used, so every relocation of an object lands on its first eight bytes and the bytes
at the offsets stay as they were (`relocate_writes_object_starts`). The pass finishes,
instead of panicking, exactly when every object has bytes and every relocation names a
function or a data object of the module (`relocate_ok_iff`).
-/

namespace Interpret

open ArchiveWriter (except_bind_eq_ok ok_bind exists_bind_ok_iff)

/-! ## Stack slots -/

/-- `slot_offset` in `stack_address`: the sizes of the slots before `slot`, summed as
`u64`. -/
def slotOffset (sizes : List UInt32) (slot : Nat) : UInt64 :=
  ((sizes.take slot).map UInt32.toUInt64).sum

/-- `stack_address`: the current frame's memory, moved on by the slot's offset and
`offset` (the `Address` built from it is not modelled). -/
def stackAddress (C : Cranelift) (st : State C) (function : C.Function) (slot : Nat)
    (offset : UInt64) : Except (Stop C.StepError) Nat :=
  match st.stack with
  | [] => .error (.panic stackPanic)
  | (_, addr) :: _ => .ok (addr + (slotOffset (C.stackSlotSizes function) slot + offset).toNat)

theorem toNat_add_uint64 (a b : UInt64) : (a + b).toNat = (a.toNat + b.toNat) % 2 ^ 64 := rfl

theorem toNat_add_uint32 (a b : UInt32) : (a + b).toNat = (a.toNat + b.toNat) % 2 ^ 32 := rfl

theorem toNat_sum_uint32 (sizes : List UInt32) :
    sizes.sum.toNat = (sizes.map UInt32.toNat).sum % 2 ^ 32 := by
  induction sizes with
  | nil => rfl
  | cons a sizes ih =>
    simp only [List.sum_cons, List.map_cons, toNat_add_uint32, ih, Nat.add_mod_mod]

theorem toNat_sum_uint64 (sizes : List UInt32) :
    (sizes.map UInt32.toUInt64).sum.toNat = (sizes.map UInt32.toNat).sum % 2 ^ 64 := by
  induction sizes with
  | nil => rfl
  | cons a sizes ih =>
    simp only [List.sum_cons, List.map_cons, toNat_add_uint64, ih, Nat.add_mod_mod]
    rfl

theorem toNat_frameBytes (sizes : List UInt32) :
    (frameBytes sizes).toNat = (sizes.map UInt32.toNat).sum % 2 ^ 32 :=
  toNat_sum_uint32 sizes

theorem toNat_slotOffset (sizes : List UInt32) (slot : Nat) :
    (slotOffset sizes slot).toNat = ((sizes.map UInt32.toNat).take slot).sum % 2 ^ 64 := by
  rw [slotOffset, toNat_sum_uint64, List.map_take]

theorem sum_take_add_le (sizes : List Nat) {slot : Nat} (h : slot < sizes.length) :
    (sizes.take slot).sum + sizes.get ⟨slot, h⟩ ≤ sizes.sum := by
  rw [List.get_eq_getElem, ← List.sum_take_succ, ← List.sum_take_add_sum_drop sizes (slot + 1)]
  omega

theorem sum_toNat_le (sizes : List UInt32) :
    (sizes.map UInt32.toNat).sum ≤ sizes.length * 2 ^ 32 := by
  induction sizes with
  | nil => simp
  | cons a sizes ih =>
    have := a.toNat_lt_size
    simp only [List.map_cons, List.sum_cons, List.length_cons, Nat.succ_mul]
    change _ < 2 ^ 32 at this
    omega

theorem sum_toNat_lt (sizes : List UInt32) (hlen : sizes.length < 2 ^ 32) :
    (sizes.map UInt32.toNat).sum < 2 ^ 64 :=
  calc (sizes.map UInt32.toNat).sum ≤ sizes.length * 2 ^ 32 := sum_toNat_le sizes
    _ < 2 ^ 32 * 2 ^ 32 := Nat.mul_lt_mul_of_pos_right hlen (by decide)
    _ = 2 ^ 64 := by norm_num

theorem toNat_slotOffset_add {sizes : List UInt32} (hlen : sizes.length < 2 ^ 32) {slot : Nat}
    (h : slot < sizes.length) {offset : UInt64}
    (hoff : offset.toNat ≤ (sizes.get ⟨slot, h⟩).toNat) :
    (slotOffset sizes slot + offset).toNat =
      ((sizes.map UInt32.toNat).take slot).sum + offset.toNat := by
  have hle := sum_take_add_le (sizes.map UInt32.toNat) (by simpa using h)
  have htotal := sum_toNat_lt sizes hlen
  simp only [List.get_eq_getElem, List.getElem_map] at hle hoff
  rw [toNat_add_uint64, toNat_slotOffset,
    Nat.mod_eq_of_lt (by omega : ((sizes.map UInt32.toNat).take slot).sum < 2 ^ 64),
    Nat.mod_eq_of_lt (by omega)]

/-- Every access of `n` bytes at `offset` inside a slot lies in the memory `push_frame`
gave the frame exactly when the slot sizes sum below 2^32. A function has fewer than 2^32
stack slots, their entity indices being `u32`. -/
theorem stack_accesses_in_frame_iff (sizes : List UInt32) (hlen : sizes.length < 2 ^ 32) :
    (∀ slot (h : slot < sizes.length) (offset : UInt64) (n : Nat),
        offset.toNat + n ≤ (sizes.get ⟨slot, h⟩).toNat →
        (slotOffset sizes slot + offset).toNat + n ≤ (frameBytes sizes).toNat) ↔
      (sizes.map UInt32.toNat).sum < 2 ^ 32 := by
  have htotal := sum_toNat_lt sizes hlen
  constructor
  · intro hin
    by_contra hge
    rw [not_lt] at hge
    have hne : sizes ≠ [] := by rintro rfl; simp at hge
    have hlast : sizes.length - 1 < sizes.length := by
      have := List.length_pos_of_ne_nil hne; omega
    -- the last slot, accessed whole, ends at the sum of all sizes
    have hin := hin _ hlast 0 (sizes.get ⟨_, hlast⟩).toNat (by simp)
    rw [toNat_slotOffset_add hlen hlast (by simp), toNat_frameBytes, UInt64.toNat_zero] at hin
    have htake := List.sum_take_succ (sizes.map UInt32.toNat) (sizes.length - 1)
      (by simpa using hlast)
    rw [Nat.sub_add_cancel (List.length_pos_of_ne_nil hne),
      List.take_of_length_le (by simp)] at htake
    simp only [List.getElem_map, List.get_eq_getElem] at htake hin
    have := Nat.mod_lt (sizes.map UInt32.toNat).sum (by decide : 0 < 2 ^ 32)
    omega
  · intro hsum slot h offset n hn
    rw [toNat_slotOffset_add hlen h (by omega), toNat_frameBytes, Nat.mod_eq_of_lt hsum]
    have hle := sum_take_add_le (sizes.map UInt32.toNat) (by simpa using h)
    simp only [List.get_eq_getElem, List.getElem_map] at hle hn
    omega

theorem stackAddress_pushFrame {C : Cranelift} (st : State C) (function : C.Function)
    (slot : Nat) (offset : UInt64) :
    stackAddress C (pushFrame C st function) function slot offset =
      .ok ((C.alloc st.memory (frameBytes (C.stackSlotSizes function)).toNat).1 +
        (slotOffset (C.stackSlotSizes function) slot + offset).toNat) :=
  rfl

theorem two_slots_in_frame :
    [(8 : UInt32), 16].length < 2 ^ 32 ∧
      ((∀ slot (h : slot < [(8 : UInt32), 16].length) (offset : UInt64) (n : Nat),
          offset.toNat + n ≤ ([(8 : UInt32), 16].get ⟨slot, h⟩).toNat →
          (slotOffset [8, 16] slot + offset).toNat + n ≤ (frameBytes [8, 16]).toNat) ↔
        ([(8 : UInt32), 16].map UInt32.toNat).sum < 2 ^ 32) :=
  ⟨by decide, stack_accesses_in_frame_iff _ (by decide)⟩

theorem slot_access_le_of_lt {sizes : List UInt32} (hlen : sizes.length < 2 ^ 32) {i j : Nat}
    (hi : i < sizes.length) (hj : j < sizes.length) (hij : i < j) {o₁ o₂ : UInt64} {n : Nat}
    (h₁ : o₁.toNat + n ≤ (sizes.get ⟨i, hi⟩).toNat)
    (h₂ : o₂.toNat ≤ (sizes.get ⟨j, hj⟩).toNat) :
    (slotOffset sizes i + o₁).toNat + n ≤ (slotOffset sizes j + o₂).toNat := by
  rw [toNat_slotOffset_add hlen hi (by omega), toNat_slotOffset_add hlen hj h₂]
  have hsucc := List.sum_take_succ (sizes.map UInt32.toNat) i (by simpa using hi)
  have hmono : ((sizes.map UInt32.toNat).take (i + 1)).sum ≤
      ((sizes.map UInt32.toNat).take j).sum := List.monotone_sum_take _ hij
  simp only [List.getElem_map] at hsucc
  simp only [List.get_eq_getElem] at h₁
  omega

/-- Different stack slots never share a byte: of two accesses inside two different slots of
a function with fewer than 2^32 slots, one lies wholly before the other. -/
theorem stack_slots_disjoint {sizes : List UInt32} (hlen : sizes.length < 2 ^ 32) {i j : Nat}
    (hi : i < sizes.length) (hj : j < sizes.length) (hij : i ≠ j) {o₁ o₂ : UInt64}
    {n₁ n₂ : Nat} (h₁ : o₁.toNat + n₁ ≤ (sizes.get ⟨i, hi⟩).toNat)
    (h₂ : o₂.toNat + n₂ ≤ (sizes.get ⟨j, hj⟩).toNat) :
    (slotOffset sizes i + o₁).toNat + n₁ ≤ (slotOffset sizes j + o₂).toNat ∨
      (slotOffset sizes j + o₂).toNat + n₂ ≤ (slotOffset sizes i + o₁).toNat := by
  rcases Nat.lt_or_gt_of_ne hij with hlt | hgt
  · exact .inl (slot_access_le_of_lt hlen hi hj hlt h₁ (by omega))
  · exact .inr (slot_access_le_of_lt hlen hj hi hgt h₂ (by omega))

theorem two_slots_disjoint :
    [(8 : UInt32), 16].length < 2 ^ 32 ∧
      (0 : UInt64).toNat + 8 ≤ ([(8 : UInt32), 16].get ⟨0, by decide⟩).toNat ∧
      (0 : UInt64).toNat + 16 ≤ ([(8 : UInt32), 16].get ⟨1, by decide⟩).toNat ∧
      ((slotOffset [8, 16] 0 + 0).toNat + 8 ≤ (slotOffset [8, 16] 1 + 0).toNat ∨
        (slotOffset [8, 16] 1 + 0).toNat + 16 ≤ (slotOffset [8, 16] 0 + 0).toNat) :=
  ⟨by decide, by decide, by decide,
    stack_slots_disjoint (by decide) (by decide) (by decide) (by decide) (by decide) (by decide)⟩

/-! ## Relocations of data objects -/

/-- `ModuleExtName`, a relocation's target: a function (namespace 0) or a data object
(namespace 1) of the module, a libcall or a known symbol. -/
inductive ExtName
  | user (ns index : Nat)
  | libCall
  | knownSymbol
  deriving DecidableEq, Repr

/-- A relocation `all_relocs(Reloc::Abs8)` yields for a data object: where in the object it
belongs, its target and its addend. All of them are `Abs8`. -/
structure ModuleReloc where
  offset : Nat
  name : ExtName
  addend : Int
  deriving DecidableEq, Repr

/-- `cranelift_module::Init`. -/
inductive Init
  | uninitialized
  | zeros (size : Nat)
  | bytes (contents : List UInt8)
  deriving DecidableEq, Repr

def Init.isBytes : Init → Bool
  | .bytes _ => true
  | _ => false

structure DataObject where
  init : Init
  relocs : List ModuleReloc
  deriving DecidableEq, Repr

/-- The first loop of the relocation pass: the address `contents.as_ptr()` of every data
object's bytes, given by `addrOf`, and `todo!()` for an object without bytes. -/
def dataObjectAddrs (addrOf : Nat → Nat) :
    List (Nat × DataObject) → Except String (List (Nat × Nat))
  | [] => .ok []
  | (id, obj) :: rest =>
    match obj.init with
    | .bytes _ => do
      let addrs ← dataObjectAddrs addrOf rest
      return (id, addrOf id) :: addrs
    | _ => .error "not yet implemented"

/-- `data_object_addrs[&id]`, which panics on a missing key. -/
def lookupAddr (addrs : List (Nat × Nat)) (id : Nat) : Except String Nat :=
  match addrs.lookup id with
  | some addr => .ok addr
  | none => .error "no entry found for key"

/-- `reloc_val`: a function's index stands for its address, a data object's address is
looked up, and the addend is added in `i64`, wrapping as in a release build. -/
def relocValue (addrs : List (Nat × Nat)) (reloc : ModuleReloc) : Except String Nat := do
  let target ← match reloc.name with
    | .user ns index =>
      if ns = 0 then pure index
      else if ns = 1 then lookupAddr addrs index
      else .error "internal error: entered unreachable code"
    | .libCall | .knownSymbol => .error "not yet implemented"
  return (((target : Int) + reloc.addend) % 2 ^ 64).toNat

/-- `*(addr as *mut u64) = value`: eight bytes, least significant first, as on the
little-endian hosts the interpreter runs on. -/
def writeU64 (mem : Nat → UInt8) (addr value : Nat) : Nat → UInt8 :=
  fun a => if addr ≤ a ∧ a < addr + 8 then (value / 256 ^ (a - addr) % 256).toUInt8 else mem a

/-- The inner loop of the second loop: each relocation of object `id`, written through
`data_object_addrs[data_id]`, the address of the object's first byte. -/
def relocateObject (addrs : List (Nat × Nat)) (id : Nat) :
    List ModuleReloc → (Nat → UInt8) → Except String (Nat → UInt8)
  | [], mem => .ok mem
  | reloc :: relocs, mem => do
    let value ← relocValue addrs reloc
    let addr ← lookupAddr addrs id
    relocateObject addrs id relocs (writeU64 mem addr value)

/-- The relocation pass of `run_interpret` over the module's data objects, in key order. -/
def relocate (addrOf : Nat → Nat) (objects : List (Nat × DataObject)) (mem : Nat → UInt8) :
    Except String (Nat → UInt8) := do
  let addrs ← dataObjectAddrs addrOf objects
  objects.foldlM (fun mem obj => relocateObject addrs obj.1 obj.2.relocs mem) mem

theorem relocateObject_cons (addrs : List (Nat × Nat)) (id : Nat) (reloc : ModuleReloc)
    (relocs : List ModuleReloc) (mem : Nat → UInt8) :
    relocateObject addrs id (reloc :: relocs) mem = (do
      let value ← relocValue addrs reloc
      let addr ← lookupAddr addrs id
      relocateObject addrs id relocs (writeU64 mem addr value)) :=
  rfl

theorem dataObjectAddrs_ok_iff {addrOf : Nat → Nat} {objects : List (Nat × DataObject)}
    {addrs : List (Nat × Nat)} :
    dataObjectAddrs addrOf objects = .ok addrs ↔
      objects.map (fun p => (p.1, addrOf p.1)) = addrs ∧ ∀ p ∈ objects, p.2.init.isBytes := by
  induction objects generalizing addrs with
  | nil => simp [dataObjectAddrs]
  | cons p objects ih =>
    rcases p with ⟨id, ⟨init, relocs⟩⟩
    cases init with
    | bytes contents =>
      simp only [dataObjectAddrs, except_bind_eq_ok, ih, pure, Except.pure, Except.ok.injEq,
        List.map_cons, List.forall_mem_cons]
      constructor
      · rintro ⟨_, ⟨rfl, hall⟩, rfl⟩
        exact ⟨rfl, rfl, hall⟩
      · rintro ⟨rfl, -, hall⟩
        exact ⟨_, ⟨rfl, hall⟩, rfl⟩
    | _ => simp [dataObjectAddrs, Init.isBytes]

theorem lookupAddr_map {addrOf : Nat → Nat} {objects : List (Nat × DataObject)} {id addr : Nat}
    (h : lookupAddr (objects.map fun p => (p.1, addrOf p.1)) id = .ok addr) :
    addr = addrOf id ∧ ∃ p ∈ objects, p.1 = id := by
  induction objects with
  | nil => simp [lookupAddr] at h
  | cons p objects ih =>
    by_cases hp : id = p.1
    · subst hp
      simp only [lookupAddr, List.map_cons, List.lookup_cons, beq_self_eq_true] at h
      cases h
      exact ⟨rfl, p, List.mem_cons_self .., rfl⟩
    · have hne : (id == p.1) = false := by simpa using hp
      simp only [lookupAddr, List.map_cons, List.lookup_cons, hne] at h
      obtain ⟨rfl, q, hq, hq'⟩ := ih h
      exact ⟨rfl, q, List.mem_cons_of_mem _ hq, hq'⟩

theorem lookupAddr_map_of_mem {addrOf : Nat → Nat} {objects : List (Nat × DataObject)}
    {id : Nat} (h : id ∈ objects.map Prod.fst) :
    lookupAddr (objects.map fun p => (p.1, addrOf p.1)) id = .ok (addrOf id) := by
  induction objects with
  | nil => simp at h
  | cons p objects ih =>
    by_cases hp : id = p.1
    · subst hp
      simp [lookupAddr]
    · have hne : (id == p.1) = false := by simpa using hp
      simp only [List.map_cons, List.mem_cons, hp, false_or] at h
      simpa only [lookupAddr, List.map_cons, List.lookup_cons, hne] using ih h

theorem exists_lookupAddr_map_ok {addrOf : Nat → Nat} {objects : List (Nat × DataObject)}
    {id : Nat} :
    (∃ addr, lookupAddr (objects.map fun p => (p.1, addrOf p.1)) id = .ok addr) ↔
      id ∈ objects.map Prod.fst := by
  refine ⟨fun ⟨_, h⟩ => ?_, fun h => ⟨_, lookupAddr_map_of_mem h⟩⟩
  obtain ⟨-, p, hp, rfl⟩ := lookupAddr_map h
  exact List.mem_map_of_mem _ hp

theorem writeU64_of_not_mem {mem : Nat → UInt8} {addr a : Nat} (ha : a < addr ∨ addr + 8 ≤ a)
    (value : Nat) : writeU64 mem addr value a = mem a := by
  simp only [writeU64]
  rw [if_neg (by omega)]

theorem relocateObject_frame {addrs : List (Nat × Nat)} {id : Nat} {a : Nat}
    (ha : ∀ addr, lookupAddr addrs id = .ok addr → a < addr ∨ addr + 8 ≤ a) :
    ∀ {relocs : List ModuleReloc} {mem mem' : Nat → UInt8},
    relocateObject addrs id relocs mem = .ok mem' → mem' a = mem a
  | [], _, _, h => by cases h; rfl
  | reloc :: relocs, mem, mem', h => by
    rw [relocateObject_cons] at h
    simp only [except_bind_eq_ok] at h
    obtain ⟨value, -, addr, haddr, h⟩ := h
    rw [relocateObject_frame ha h, writeU64_of_not_mem (ha addr haddr)]

/-- The loop over one object's relocations leaves its first eight bytes holding its last
relocation's value, least significant byte first. -/
theorem relocateObject_last {addrs : List (Nat × Nat)} {id : Nat} :
    ∀ {relocs : List ModuleReloc} (hne : relocs ≠ []) {mem mem' : Nat → UInt8},
    relocateObject addrs id relocs mem = .ok mem' →
    ∃ addr value, lookupAddr addrs id = .ok addr ∧
      relocValue addrs (relocs.getLast hne) = .ok value ∧
      ∀ i < 8, mem' (addr + i) = (value / 256 ^ i % 256).toUInt8
  | [], hne, _, _, _ => absurd rfl hne
  | [reloc], _, mem, mem', h => by
    rw [relocateObject_cons] at h
    simp only [except_bind_eq_ok] at h
    obtain ⟨value, hv, addr, haddr, h⟩ := h
    cases h
    refine ⟨addr, value, haddr, hv, fun i hi => ?_⟩
    simp only [writeU64]
    rw [if_pos (by omega), Nat.add_sub_cancel_left]
  | reloc :: reloc' :: relocs, _, mem, mem', h => by
    rw [relocateObject_cons] at h
    simp only [except_bind_eq_ok] at h
    obtain ⟨value, -, addr, -, h⟩ := h
    rw [List.getLast_cons_cons]
    exact relocateObject_last (List.cons_ne_nil _ _) h

theorem two_relocations_last_wins :
    ∃ mem', relocateObject [(0, 100)] 0 [⟨0, .user 0 3, 0⟩, ⟨8, .user 1 0, 4⟩] (fun _ => 0) =
        .ok mem' ∧
      ∃ addr value, lookupAddr [(0, 100)] 0 = .ok addr ∧
        relocValue [(0, 100)] (([⟨0, .user 0 3, 0⟩, ⟨8, .user 1 0, 4⟩] : List ModuleReloc).getLast
          (List.cons_ne_nil _ _)) = .ok value ∧
        ∀ i < 8, mem' (addr + i) = (value / 256 ^ i % 256).toUInt8 := by
  obtain ⟨mem', h⟩ : ∃ mem', relocateObject [(0, 100)] 0
      [⟨0, .user 0 3, 0⟩, ⟨8, .user 1 0, 4⟩] (fun _ => 0) = .ok mem' := ⟨_, rfl⟩
  exact ⟨mem', h, relocateObject_last (List.cons_ne_nil _ _) h⟩

theorem foldlM_relocateObject_frame {addrs : List (Nat × Nat)} {a : Nat} :
    ∀ {objects : List (Nat × DataObject)} {mem mem' : Nat → UInt8},
    (∀ p ∈ objects, ∀ {m m' : Nat → UInt8},
      relocateObject addrs p.1 p.2.relocs m = .ok m' → m' a = m a) →
    objects.foldlM (fun mem obj => relocateObject addrs obj.1 obj.2.relocs mem) mem = .ok mem' →
    mem' a = mem a
  | [], _, _, _, h => by cases h; rfl
  | p :: objects, mem, mem', hstep, h => by
    simp only [List.foldlM_cons, except_bind_eq_ok] at h
    obtain ⟨m, hm, h⟩ := h
    rw [foldlM_relocateObject_frame (fun q hq => hstep q (List.mem_cons_of_mem _ hq)) h,
      hstep p (List.mem_cons_self ..) hm]

/-- The relocation pass writes nothing but the first eight bytes of the objects that have
relocations: the bytes a relocation at offset eight or more is for keep their old value,
unless they are among another object's first eight. -/
theorem relocate_writes_object_starts {addrOf : Nat → Nat} {objects : List (Nat × DataObject)}
    {mem mem' : Nat → UInt8} (h : relocate addrOf objects mem = .ok mem') (a : Nat)
    (ha : ∀ p ∈ objects, p.2.relocs ≠ [] → a < addrOf p.1 ∨ addrOf p.1 + 8 ≤ a) :
    mem' a = mem a := by
  simp only [relocate, except_bind_eq_ok] at h
  obtain ⟨addrs, haddrs, h⟩ := h
  rw [← (dataObjectAddrs_ok_iff.1 haddrs).1] at h
  -- each object's loop leaves `a` alone
  have hstep : ∀ p ∈ objects, ∀ {m m' : Nat → UInt8},
      relocateObject (objects.map fun p => (p.1, addrOf p.1)) p.1 p.2.relocs m = .ok m' →
      m' a = m a := by
    intro p hp m m' hm
    by_cases hr : p.2.relocs = []
    · rw [hr] at hm; cases hm; rfl
    · refine relocateObject_frame (fun addr haddr => ?_) hm
      obtain ⟨rfl, -⟩ := lookupAddr_map haddr
      exact ha p hp hr
  exact foldlM_relocateObject_frame hstep h

def pointerAtEight : List (Nat × DataObject) :=
  [(0, ⟨.bytes (List.replicate 16 0), [⟨8, .user 0 3, 0⟩]⟩)]

theorem pointer_at_eight_unpatched :
    ∃ mem', relocate (fun _ => 100) pointerAtEight (fun _ => 0) = .ok mem' ∧
      (∀ p ∈ pointerAtEight, p.2.relocs ≠ [] →
        108 < (fun _ => 100) p.1 ∨ (fun _ => 100) p.1 + 8 ≤ 108) ∧ mem' 108 = 0 := by
  obtain ⟨mem', h⟩ : ∃ mem',
      relocate (fun _ => 100) pointerAtEight (fun _ => 0) = .ok mem' := ⟨_, rfl⟩
  have ha : ∀ p ∈ pointerAtEight, p.2.relocs ≠ [] →
      108 < (fun _ => 100) p.1 ∨ (fun _ => 100) p.1 + 8 ≤ 108 := by decide
  exact ⟨mem', h, ha, relocate_writes_object_starts h 108 ha⟩

/-! ## When the relocation pass finishes -/

def Resolves (ids : List Nat) : ExtName → Prop
  | .user ns index => ns = 0 ∨ ns = 1 ∧ index ∈ ids
  | .libCall | .knownSymbol => False

instance (ids : List Nat) : DecidablePred (Resolves ids) := fun name =>
  match name with
  | .user ns index => inferInstanceAs (Decidable (ns = 0 ∨ ns = 1 ∧ index ∈ ids))
  | .libCall | .knownSymbol => inferInstanceAs (Decidable False)

/-- Every data object has bytes and every relocation a target the pass resolves. -/
def Relocatable (objects : List (Nat × DataObject)) : Prop :=
  ∀ p ∈ objects,
    p.2.init.isBytes ∧ ∀ r ∈ p.2.relocs, Resolves (objects.map Prod.fst) r.name

instance (objects : List (Nat × DataObject)) : Decidable (Relocatable objects) :=
  inferInstanceAs (Decidable (∀ p ∈ objects, _ ∧ ∀ r ∈ p.2.relocs, _))

theorem relocValue_ok_iff {addrOf : Nat → Nat} {objects : List (Nat × DataObject)}
    (reloc : ModuleReloc) :
    (∃ value, relocValue (objects.map fun p => (p.1, addrOf p.1)) reloc = .ok value) ↔
      Resolves (objects.map Prod.fst) reloc.name := by
  rcases reloc with ⟨offset, name, addend⟩
  cases name with
  | user ns index =>
    by_cases h0 : ns = 0
    · simp [relocValue, Resolves, h0, pure, Except.pure]
    · by_cases h1 : ns = 1
      · subst h1
        refine Iff.trans ?_
          ((@exists_lookupAddr_map_ok addrOf objects index).trans (by simp [Resolves]))
        exact exists_bind_ok_iff fun _ => ⟨_, rfl⟩
      · simp [relocValue, Resolves, h0, h1]
  | libCall => simp [relocValue, Resolves]
  | knownSymbol => simp [relocValue, Resolves]

theorem relocateObject_ok_iff {addrs : List (Nat × Nat)} {id : Nat}
    (hid : ∃ addr, lookupAddr addrs id = .ok addr) (relocs : List ModuleReloc)
    (mem : Nat → UInt8) :
    (∃ mem', relocateObject addrs id relocs mem = .ok mem') ↔
      ∀ r ∈ relocs, ∃ value, relocValue addrs r = .ok value := by
  obtain ⟨addr, haddr⟩ := hid
  induction relocs generalizing mem with
  | nil => simp [relocateObject]
  | cons reloc relocs ih =>
    rw [relocateObject_cons, List.forall_mem_cons]
    cases relocValue addrs reloc with
    | error e => simp [bind, Except.bind]
    | ok value => simp [ok_bind, haddr, ih]

theorem foldlM_relocateObject_ok_iff {addrs : List (Nat × Nat)} :
    ∀ {objects : List (Nat × DataObject)} {mem : Nat → UInt8},
    (∀ p ∈ objects, ∃ addr, lookupAddr addrs p.1 = .ok addr) →
    ((∃ mem', objects.foldlM (fun mem obj => relocateObject addrs obj.1 obj.2.relocs mem) mem =
        .ok mem') ↔
      ∀ p ∈ objects, ∀ r ∈ p.2.relocs, ∃ value, relocValue addrs r = .ok value)
  | [], _, _ => ⟨fun _ _ h => absurd h (List.not_mem_nil _), fun _ => ⟨_, rfl⟩⟩
  | p :: objects, mem, hid => by
    have hrest := fun mem => @foldlM_relocateObject_ok_iff addrs objects mem
      fun q hq => hid q (List.mem_cons_of_mem _ hq)
    have hp := relocateObject_ok_iff (hid p (List.mem_cons_self ..)) p.2.relocs mem
    simp only [List.foldlM_cons, List.forall_mem_cons]
    cases hm : relocateObject addrs p.1 p.2.relocs mem with
    | error e =>
      refine iff_of_false (by simp [bind, Except.bind]) fun h => ?_
      obtain ⟨_, h'⟩ := hp.2 h.1
      rw [hm] at h'
      cases h'
    | ok m =>
      rw [ok_bind, hrest, iff_and_self]
      exact fun _ => hp.1 ⟨m, hm⟩

/-- The relocation pass of `run_interpret` finishes, instead of panicking, exactly when
every data object has bytes and every relocation names a function, or a data object of the
module, whatever the memory and the addresses of the objects. -/
theorem relocate_ok_iff (addrOf : Nat → Nat) (objects : List (Nat × DataObject))
    (mem : Nat → UInt8) :
    (∃ mem', relocate addrOf objects mem = .ok mem') ↔ Relocatable objects := by
  by_cases hb : ∀ p ∈ objects, p.2.init.isBytes
  · have haddrs := (@dataObjectAddrs_ok_iff addrOf objects _).2 ⟨rfl, hb⟩
    simp only [relocate, haddrs, ok_bind]
    rw [foldlM_relocateObject_ok_iff fun p hp =>
      ⟨_, lookupAddr_map_of_mem (List.mem_map_of_mem _ hp)⟩]
    simp only [relocValue_ok_iff, Relocatable]
    exact ⟨fun h p hp => ⟨hb p hp, h p hp⟩, fun h p hp => (h p hp).2⟩
  · refine iff_of_false ?_ fun h => hb fun p hp => (h p hp).1
    rintro ⟨mem', h⟩
    simp only [relocate, except_bind_eq_ok] at h
    obtain ⟨addrs, haddrs, -⟩ := h
    exact hb (dataObjectAddrs_ok_iff.1 haddrs).2

end Interpret
