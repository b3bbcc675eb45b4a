import ArchiveWriter.Header

/-!
# The symbol table

`write_symbol_table` writes, after its header, the number of entries (BSD: their size in
bytes), one entry per archive symbol (BSD: name offset and member offset; GNU: the member
offset alone), the size of the name buffer (BSD only), the name buffer, and NUL padding.
Offsets are four bytes wide for the 32-bit kinds and eight for the 64-bit ones.

The sink `w` is an `EStateM` over the bytes written so far: it is written front to back,
so its stream position is its length, and a panic keeps what was written before it.
-/

namespace ArchiveWriter

open ArchiveKind

/-- The sink `w: Write + Seek`. -/
abbrev Out := EStateM ArchiveError (List UInt8)

/-- `w.write_all(bytes)`. -/
def writeAll (bytes : List UInt8) : Out Unit := fun w => .ok () (w ++ bytes)

/-- `w.stream_position()`. -/
def streamPosition : Out Nat := fun w => .ok w.length w

/-- A step of the writer that does not touch the sink and may stop. -/
def liftExcept {α : Type} : Except ArchiveError α → Out α
  | .ok a => fun w => .ok a w
  | .error e => fun w => .error e w

def now (deterministic : Bool) : Except ArchiveError Nat :=
  if !deterministic then .error (.panic "not yet implemented") else .ok 0

def isArchiveSymbol (sym : ObjectSymbol) : Bool :=
  if !sym.isGlobal then false else if !sym.isDefinition then false else true

def printNBits (kind : ArchiveKind) (val : Nat) : Out Unit := do
  if is64BitKind kind then
    writeAll (if ← liftExcept (isBsdLike kind) then leBytes 8 val else beBytes 8 val)
  else
    let bsd ← liftExcept (isBsdLike kind)
    if val < 2 ^ 32 then writeAll (if bsd then leBytes 4 val else beBytes 4 val)
    else liftExcept (.error (.panic "called Result::unwrap() on an Err value: TryFromIntError"))

def computeSymbolTableSizeAndPad (kind : ArchiveKind) (numSyms offsetSize : Nat)
    (stringTable : List UInt8) : Except ArchiveError (Nat × Nat) := do
  if !(offsetSize == 4 || offsetSize == 8) then .error (.panic "Unsupported offset_size")
  let bsd ← isBsdLike kind
  let size := offsetSize + (if bsd then numSyms * offsetSize * 2 else numSyms * offsetSize) +
    (if bsd then offsetSize else 0) + stringTable.length
  let pad := offsetToAlignment size (if bsd then 8 else 2)
  return (size + pad, pad)

def writeSymbolTableHeader (kind : ArchiveKind) (deterministic : Bool) (size : Nat) :
    Out Unit := do
  if ← liftExcept (isBsdLike kind) then
    let name := if is64BitKind kind then "__.SYMDEF_64" else "__.SYMDEF"
    let pos ← streamPosition
    let t ← liftExcept (now deterministic)
    writeAll (printBsdMemberHeader pos name t 0 0 0 size)
  else
    let name := if is64BitKind kind then "/SYM64" else ""
    let t ← liftExcept (now deterministic)
    writeAll (printGnuSmallMemberHeader name t 0 0 0 size)

/-- The inner loop of `write_symbol_table`, over one member's symbols; `pos` is the offset
of that member's header. -/
def writeMemberSymbols (kind : ArchiveKind) (bsd : Bool) (pos : Nat) : List Nat → Out Unit
  | [] => pure ()
  | stringOffset :: rest => do
    if bsd then printNBits kind stringOffset
    printNBits kind pos
    writeMemberSymbols kind bsd pos rest

/-- The outer loop of `write_symbol_table`, with `pos` advanced past each member. -/
def writeSymbols (kind : ArchiveKind) (bsd : Bool) : Nat → List MemberData → Out Unit
  | _, [] => pure ()
  | pos, m :: ms => do
    writeMemberSymbols kind bsd pos m.symbols
    writeSymbols kind bsd (pos + (m.header.length + m.data.length + m.padding.length)) ms

def writeSymbolTable (kind : ArchiveKind) (deterministic : Bool) (members : List MemberData)
    (stringTable : List UInt8) : Out Unit := do
  if stringTable.isEmpty && !isDarwin kind then return
  let numSyms := (members.map fun m => m.symbols.length).sum
  let offsetSize := if is64BitKind kind then 8 else 4
  let (size, pad) ← liftExcept (computeSymbolTableSizeAndPad kind numSyms offsetSize stringTable)
  writeSymbolTableHeader kind deterministic size
  let pos := (← streamPosition) + size
  let bsd ← liftExcept (isBsdLike kind)
  printNBits kind (if bsd then numSyms * 2 * offsetSize else numSyms)
  writeSymbols kind bsd pos members
  if bsd then printNBits kind stringTable.length
  writeAll stringTable
  writeAll (List.replicate pad 0)

/-- The loop of `get_symbols` over the parsed symbols: the name offsets of the archive
symbols, and the name buffer after their names were appended. -/
def addArchiveSymbols :
    List ObjectSymbol → List UInt8 → Except ArchiveError (List Nat × List UInt8)
  | [], symNames => .ok ([], symNames)
  | sym :: syms, symNames =>
    if !isArchiveSymbol sym then addArchiveSymbols syms symNames
    else match sym.nameBytes with
      | none => .error (.panic "FIXME")
      | some name => do
        let (ret, symNames') ← addArchiveSymbols syms (symNames ++ name ++ [0])
        return (symNames.length :: ret, symNames')

def getSymbols (parse : ObjectParser) (buf symNames : List UInt8) (hasObject : Bool) :
    Except ArchiveError (List Nat × List UInt8 × Bool) :=
  match parse buf with
  | some syms => do
    let (ret, symNames') ← addArchiveSymbols syms symNames
    return (ret, symNames', true)
  | none => .ok ([], symNames, hasObject)


/-! ## Running the writer -/

section Run
variable {α β : Type}

@[simp] theorem writeAll_run (b w : List UInt8) : (writeAll b).run w = .ok () (w ++ b) := rfl
@[simp] theorem streamPosition_run (w : List UInt8) : streamPosition.run w = .ok w.length w := rfl
@[simp] theorem liftExcept_ok_run (a : α) (w : List UInt8) :
    (liftExcept (.ok a)).run w = .ok a w := rfl
@[simp] theorem liftExcept_error_run (e : ArchiveError) (w : List UInt8) :
    (@liftExcept α (.error e)).run w = .error e w := rfl
@[simp] theorem pure_run (a : α) (w : List UInt8) : (pure a : Out α).run w = .ok a w := rfl

@[simp] theorem bind_run (x : Out α) (f : α → Out β) (w : List UInt8) :
    (x >>= f).run w = match x.run w with
      | .ok a w' => (f a).run w'
      | .error e w' => .error e w' := by
  change EStateM.bind x f w = match x w with
    | .ok a w' => (f a).run w'
    | .error e w' => .error e w'
  simp only [EStateM.bind]
  cases x w <;> rfl

theorem bind_run_of_ok {x : Out α} {w w' : List UInt8} {a : α} (h : x.run w = .ok a w')
    (f : α → Out β) : (x >>= f).run w = (f a).run w' := by
  rw [bind_run, h]

end Run

theorem isBsdLike_of_writable {kind : ArchiveKind} (hk : kind.Writable) :
    isBsdLike kind = .ok kind.bsd := by
  cases kind <;> simp_all [ArchiveKind.Writable, isBsdLike, ArchiveKind.bsd]

/-- The bytes `print_n_bits` writes for `val` when it does not stop. -/
def nBits (kind : ArchiveKind) (val : Nat) : List UInt8 :=
  if is64BitKind kind then (if kind.bsd then leBytes 8 val else beBytes 8 val)
  else if kind.bsd then leBytes 4 val else beBytes 4 val

theorem length_nBits (kind : ArchiveKind) (val : Nat) :
    (nBits kind val).length = if is64BitKind kind then 8 else 4 := by
  unfold nBits; split <;> split <;> simp [beBytes, leBytes]

/-- `u32::try_from(val)` succeeds, or no conversion is made. -/
def NBitsFit (kind : ArchiveKind) (val : Nat) : Prop := is64BitKind kind = true ∨ val < 2 ^ 32

theorem printNBits_run {kind : ArchiveKind} {val : Nat} (hk : kind.Writable)
    (hv : NBitsFit kind val) (w : List UInt8) :
    (printNBits kind val).run w = .ok () (w ++ nBits kind val) := by
  rcases hv with h | h
  · simp [printNBits, nBits, isBsdLike_of_writable hk, h]
  · cases h64 : is64BitKind kind
    · simp only [printNBits, nBits, isBsdLike_of_writable hk, h64, bind_run, if_pos h]
      rfl
    · simp [printNBits, nBits, isBsdLike_of_writable hk, h64]

theorem printNBits_run_ok {kind : ArchiveKind} {val : Nat} {w w' : List UInt8} {u : Unit}
    (h : (printNBits kind val).run w = .ok u w') :
    kind.Writable ∧ NBitsFit kind val ∧ w' = w ++ nBits kind val := by
  have hk : kind.Writable := by
    cases kind <;> first | decide | simp [printNBits, isBsdLike, is64BitKind] at h
  by_cases hv : NBitsFit kind val
  · rw [printNBits_run hk hv] at h
    cases h
    exact ⟨hk, hv, rfl⟩
  · simp only [NBitsFit, not_or, Bool.not_eq_true, not_lt] at hv
    simp only [printNBits, isBsdLike_of_writable hk, hv.1, bind_run, if_neg (Nat.not_lt.2 hv.2)] at h
    cases h


/-! ## The symbol-table loops as a list of values -/

/-- `print_n_bits` applied to each value in turn. -/
def printAll (kind : ArchiveKind) : List Nat → Out Unit
  | [] => pure ()
  | v :: vs => do printNBits kind v; printAll kind vs

theorem printAll_append (kind : ArchiveKind) (a b : List Nat) :
    printAll kind (a ++ b) = (do printAll kind a; printAll kind b) := by
  induction a with
  | nil => simp [printAll]
  | cons v a ih => simp [printAll, ih]

/-- The values the loops of `write_symbol_table` pass to `print_n_bits` for one member:
per symbol its name offset (BSD only) and the offset `pos` of the member's header. -/
def memberValues (bsd : Bool) (pos : Nat) (syms : List Nat) : List Nat :=
  syms.flatMap fun so => (if bsd then [so] else []) ++ [pos]

/-- The same over all members, `pos` advancing past each. -/
def symbolValues (bsd : Bool) : Nat → List MemberData → List Nat
  | _, [] => []
  | pos, m :: ms => memberValues bsd pos m.symbols ++
      symbolValues bsd (pos + (m.header.length + m.data.length + m.padding.length)) ms

theorem memberValues_cons (bsd : Bool) (pos so : Nat) (syms : List Nat) :
    memberValues bsd pos (so :: syms) = (if bsd then [so] else []) ++ [pos] ++ memberValues bsd pos syms :=
  rfl

theorem mem_memberValues {bsd : Bool} {pos v : Nat} {syms : List Nat}
    (h : v ∈ memberValues bsd pos syms) : v ∈ syms ∨ v = pos := by
  simp only [memberValues, List.mem_flatMap, List.mem_append, List.mem_singleton] at h
  obtain ⟨so, hso, h | rfl⟩ := h
  · cases bsd <;> simp_all
  · exact .inr rfl

theorem length_memberValues (bsd : Bool) (pos : Nat) (syms : List Nat) :
    (memberValues bsd pos syms).length = (if bsd then 2 else 1) * syms.length := by
  induction syms with
  | nil => rfl
  | cons so syms ih =>
    rw [memberValues_cons]
    cases bsd
    · simp [ih]
    · simp [ih]; omega

theorem writeMemberSymbols_eq (kind : ArchiveKind) (bsd : Bool) (pos : Nat) (syms : List Nat) :
    writeMemberSymbols kind bsd pos syms = printAll kind (memberValues bsd pos syms) := by
  induction syms with
  | nil => rfl
  | cons so syms ih =>
    rw [writeMemberSymbols, ih, memberValues_cons]
    cases bsd <;> simp [printAll, printAll_append]

theorem writeSymbols_eq (kind : ArchiveKind) (bsd : Bool) (pos : Nat) (ms : List MemberData) :
    writeSymbols kind bsd pos ms = printAll kind (symbolValues bsd pos ms) := by
  induction ms generalizing pos with
  | nil => rfl
  | cons m ms ih => simp [writeSymbols, symbolValues, printAll_append, writeMemberSymbols_eq, ih]

theorem printAll_run {kind : ArchiveKind} (hk : kind.Writable) {vs : List Nat}
    (hv : ∀ v ∈ vs, NBitsFit kind v) (w : List UInt8) :
    (printAll kind vs).run w = .ok () (w ++ vs.flatMap (nBits kind)) := by
  induction vs generalizing w with
  | nil => simp [printAll]
  | cons v vs ih =>
    simp only [printAll, bind_run, printNBits_run hk (hv v (List.mem_cons_self ..)),
      ih (fun x hx => hv x (List.mem_cons_of_mem _ hx)), List.flatMap_cons, List.append_assoc]

theorem printAll_run_ok {kind : ArchiveKind} {vs : List Nat} {w w' : List UInt8} {u : Unit}
    (h : (printAll kind vs).run w = .ok u w') :
    (∀ v ∈ vs, NBitsFit kind v) ∧ w' = w ++ vs.flatMap (nBits kind) := by
  induction vs generalizing w with
  | nil => cases h; simp
  | cons v vs ih =>
    simp only [printAll, bind_run] at h
    split at h
    · rename_i w₁ h₁
      obtain ⟨-, hv, rfl⟩ := printNBits_run_ok h₁
      obtain ⟨hvs, rfl⟩ := ih h
      refine ⟨?_, by simp⟩
      intro x hx
      rcases List.mem_cons.1 hx with rfl | hx
      · exact hv
      · exact hvs x hx
    · cases h

/-! ## `write_symbol_table` -/

/-- The name of the symbol-table member in each family. -/
def symbolTableName (kind : ArchiveKind) : String :=
  if kind.bsd then (if is64BitKind kind then "__.SYMDEF_64" else "__.SYMDEF")
  else if is64BitKind kind then "/SYM64" else ""

/-- The header `write_symbol_table_header` writes at stream position `pos` in a
deterministic archive. -/
def symbolTableHeader (kind : ArchiveKind) (pos size : Nat) : List UInt8 :=
  if kind.bsd then printBsdMemberHeader pos (symbolTableName kind) 0 0 0 0 size
  else printGnuSmallMemberHeader (symbolTableName kind) 0 0 0 0 size

theorem writeSymbolTableHeader_run {kind : ArchiveKind} (hk : kind.Writable) (size : Nat)
    (w : List UInt8) :
    (writeSymbolTableHeader kind true size).run w =
      .ok () (w ++ symbolTableHeader kind w.length size) := by
  cases h : kind.bsd <;>
    simp [writeSymbolTableHeader, symbolTableHeader, symbolTableName, isBsdLike_of_writable hk,
      h, now]

theorem writeSymbolTableHeader_run_ok {kind : ArchiveKind} {deterministic : Bool} {size : Nat}
    {w w' : List UInt8} {u : Unit} (h : (writeSymbolTableHeader kind deterministic size).run w = .ok u w') :
    kind.Writable ∧ deterministic = true ∧ w' = w ++ symbolTableHeader kind w.length size := by
  have hk : kind.Writable := by
    cases kind <;> first | decide | simp [writeSymbolTableHeader, isBsdLike] at h
  cases deterministic
  · cases hb : kind.bsd <;>
      simp [writeSymbolTableHeader, isBsdLike_of_writable hk, hb, now] at h
  · rw [writeSymbolTableHeader_run hk] at h
    cases h
    exact ⟨hk, rfl, rfl⟩

theorem computeSymbolTableSizeAndPad_ok {kind : ArchiveKind} (hk : kind.Writable)
    {offsetSize : Nat} (ho : offsetSize = 4 ∨ offsetSize = 8) (numSyms : Nat)
    (stringTable : List UInt8) :
    computeSymbolTableSizeAndPad kind numSyms offsetSize stringTable =
      let size := offsetSize + (if kind.bsd then numSyms * offsetSize * 2 else numSyms * offsetSize) +
        (if kind.bsd then offsetSize else 0) + stringTable.length
      let pad := offsetToAlignment size (if kind.bsd then 8 else 2)
      .ok (size + pad, pad) := by
  rcases ho with rfl | rfl <;> simp [computeSymbolTableSizeAndPad, isBsdLike_of_writable hk]

/-- `write_symbol_table` writes nothing for an archive without symbol names, except on
Darwin. -/
def SymtabSkipped (kind : ArchiveKind) (stringTable : List UInt8) : Prop :=
  stringTable = [] ∧ isDarwin kind = false

/-- The number of symbols of the members and the width of an entry. -/
def numSymbols (members : List MemberData) : Nat := (members.map fun m => m.symbols.length).sum

theorem length_symbolValues (bsd : Bool) (pos : Nat) (ds : List MemberData) :
    (symbolValues bsd pos ds).length = (if bsd then 2 else 1) * numSymbols ds := by
  induction ds generalizing pos with
  | nil => simp [symbolValues, numSymbols]
  | cons d ds ih =>
    simp only [symbolValues, List.length_append, length_memberValues, ih, numSymbols,
      List.map_cons, List.sum_cons, Nat.mul_add]

def offsetSizeOf (kind : ArchiveKind) : Nat := if is64BitKind kind then 8 else 4

/-- The values `write_symbol_table` passes to `print_n_bits`: the entry count (BSD: the
entries' size in bytes), the entries, and (BSD) the size of the name buffer. -/
def symbolTableValues (kind : ArchiveKind) (pos : Nat) (members : List MemberData)
    (stringTable : List UInt8) : List Nat :=
  ((if kind.bsd then numSymbols members * 2 * offsetSizeOf kind else numSymbols members) ::
    symbolValues kind.bsd pos members) ++ (if kind.bsd then [stringTable.length] else [])

theorem writeSymbolTable_eq {kind : ArchiveKind} (hk : kind.Writable) (deterministic : Bool)
    (members : List MemberData) (stringTable : List UInt8) {size pad : Nat}
    (hsize : computeSymbolTableSizeAndPad kind (numSymbols members) (offsetSizeOf kind)
      stringTable = .ok (size, pad)) (hs : ¬ SymtabSkipped kind stringTable) :
    writeSymbolTable kind deterministic members stringTable = (do
      writeSymbolTableHeader kind deterministic size
      let p ← streamPosition
      printAll kind (symbolTableValues kind (p + size) members stringTable)
      writeAll stringTable
      writeAll (List.replicate pad 0)) := by
  have hs' : (stringTable.isEmpty && !isDarwin kind) = false := by
    simpa [SymtabSkipped] using hs
  have hlift : ∀ {α : Type} (a : α), liftExcept (.ok a) = pure a := fun _ => rfl
  simp only [numSymbols, offsetSizeOf] at hsize
  simp only [writeSymbolTable, hs', hsize, hlift, isBsdLike_of_writable hk, pure_bind,
    Bool.false_eq_true, if_false]
  cases hb : kind.bsd <;>
    simp [symbolTableValues, hb, printAll_append, printAll, writeSymbols_eq, numSymbols,
      offsetSizeOf]

theorem writeSymbolTable_run_ok {kind : ArchiveKind} {deterministic : Bool}
    {members : List MemberData} {stringTable : List UInt8} {w w' : List UInt8} {u : Unit}
    (h : (writeSymbolTable kind deterministic members stringTable).run w = .ok u w') :
    SymtabSkipped kind stringTable ∧ w' = w ∨
    ¬ SymtabSkipped kind stringTable ∧ kind.Writable ∧ deterministic = true ∧
      ∃ size pad, computeSymbolTableSizeAndPad kind (numSymbols members) (offsetSizeOf kind)
        stringTable = .ok (size, pad) ∧
      let header := symbolTableHeader kind w.length size
      let values := symbolTableValues kind (w.length + header.length + size) members stringTable
      (∀ v ∈ values, NBitsFit kind v) ∧
      w' = w ++ header ++ values.flatMap (nBits kind) ++ stringTable ++ List.replicate pad 0 := by
  by_cases hs : SymtabSkipped kind stringTable
  · left
    obtain ⟨rfl, hd⟩ := hs
    simp [writeSymbolTable, hd] at h
    exact ⟨⟨rfl, hd⟩, h.symm⟩
  · right
    have hk : kind.Writable := by
      have hs' : (stringTable.isEmpty && !isDarwin kind) = false := by
        simpa [SymtabSkipped] using hs
      cases kind <;> first
        | decide
        | simp [writeSymbolTable, hs', computeSymbolTableSizeAndPad, isBsdLike] at h
    have ho : offsetSizeOf kind = 4 ∨ offsetSizeOf kind = 8 := by
      unfold offsetSizeOf; split <;> simp
    have hsize := computeSymbolTableSizeAndPad_ok hk ho (numSymbols members) stringTable
    rw [writeSymbolTable_eq hk _ _ _ hsize hs] at h
    simp only [bind_run] at h
    split at h
    · rename_i w₁ h₁
      obtain ⟨-, hdet, rfl⟩ := writeSymbolTableHeader_run_ok h₁
      simp only [streamPosition_run] at h
      split at h
      · rename_i w₂ h₂
        obtain ⟨hv, rfl⟩ := printAll_run_ok h₂
        simp only [writeAll_run] at h
        cases h
        refine ⟨hs, hk, hdet, _, _, hsize, ?_, ?_⟩
        · simpa using hv
        · simp
      · cases h
    · cases h


theorem writeSymbolTable_run_skipped {kind : ArchiveKind} {stringTable : List UInt8}
    (hs : SymtabSkipped kind stringTable) (deterministic : Bool) (members : List MemberData)
    (w : List UInt8) : (writeSymbolTable kind deterministic members stringTable).run w = .ok () w := by
  obtain ⟨rfl, hd⟩ := hs
  simp [writeSymbolTable, hd]

theorem writeSymbolTable_run {kind : ArchiveKind} (hk : kind.Writable) {members : List MemberData}
    {stringTable : List UInt8} {size pad : Nat}
    (hsize : computeSymbolTableSizeAndPad kind (numSymbols members) (offsetSizeOf kind)
      stringTable = .ok (size, pad)) (hs : ¬ SymtabSkipped kind stringTable) (w : List UInt8)
    (hv : ∀ v ∈ symbolTableValues kind (w.length + (symbolTableHeader kind w.length size).length +
      size) members stringTable, NBitsFit kind v) :
    (writeSymbolTable kind true members stringTable).run w =
      .ok () (w ++ symbolTableHeader kind w.length size ++
        (symbolTableValues kind (w.length + (symbolTableHeader kind w.length size).length + size)
          members stringTable).flatMap (nBits kind) ++ stringTable ++ List.replicate pad 0) := by
  rw [writeSymbolTable_eq hk true members stringTable hsize hs]
  simp [writeSymbolTableHeader_run hk, printAll_run hk hv]

theorem length_flatMap_nBits (kind : ArchiveKind) (vs : List Nat) :
    (vs.flatMap (nBits kind)).length = offsetSizeOf kind * vs.length := by
  induction vs with
  | nil => rfl
  | cons v vs ih =>
    have hv : (nBits kind v).length = offsetSizeOf kind := length_nBits kind v
    simp only [List.flatMap_cons, List.length_append, hv, ih, List.length_cons, Nat.mul_succ]
    omega

/-- What `write_symbol_table` writes after its header is as long as the size in that
header. -/
theorem length_symbolTableBody {kind : ArchiveKind} (hk : kind.Writable)
    {members : List MemberData} {stringTable : List UInt8} {size pad : Nat}
    (hsize : computeSymbolTableSizeAndPad kind (numSymbols members) (offsetSizeOf kind)
      stringTable = .ok (size, pad)) (pos : Nat) :
    ((symbolTableValues kind pos members stringTable).flatMap (nBits kind) ++ stringTable ++
      List.replicate pad 0).length = size := by
  have ho : offsetSizeOf kind = 4 ∨ offsetSizeOf kind = 8 := by
    unfold offsetSizeOf; split <;> simp
  rw [computeSymbolTableSizeAndPad_ok hk ho] at hsize
  simp only [Except.ok.injEq, Prod.mk.injEq] at hsize
  obtain ⟨rfl, rfl⟩ := hsize
  simp only [List.length_append, length_flatMap_nBits, symbolTableValues, List.length_cons,
    length_symbolValues, List.length_replicate]
  rcases ho with h | h <;> rw [h] <;> cases kind.bsd <;> simp <;> omega

/-! ## The symbol names `get_symbols` collects -/

/-- The names of the archive symbols among the parser's symbols, in its order. -/
def archiveNames (syms : List ObjectSymbol) : List (List UInt8) :=
  (syms.filter isArchiveSymbol).filterMap (·.nameBytes)

/-- The archive symbols' names of a payload; none when it is not an object. -/
def payloadSymbolNames (parse : ObjectParser) (buf : List UInt8) : List (List UInt8) :=
  match parse buf with
  | some syms => archiveNames syms
  | none => []

/-- Names written one after another, each followed by a NUL. -/
def cStrings (names : List (List UInt8)) : List UInt8 := names.flatMap (· ++ [0])

/-- Where each of those names starts, the first at `base`. -/
def cStringOffsets : Nat → List (List UInt8) → List Nat
  | _, [] => []
  | base, n :: ns => base :: cStringOffsets (base + (n.length + 1)) ns

theorem cStringOffsets_lt : ∀ {base : Nat} {ns : List (List UInt8)} {o : Nat},
    o ∈ cStringOffsets base ns → o < base + (cStrings ns).length
  | _, [], _, h => by simp [cStringOffsets] at h
  | base, n :: ns, o, h => by
    simp only [cStringOffsets, List.mem_cons] at h
    rcases h with rfl | h
    · simp [cStrings]
    · have := cStringOffsets_lt h; simp [cStrings] at this ⊢; omega

@[simp] theorem cStrings_nil : cStrings [] = [] := rfl
@[simp] theorem cStrings_cons (n : List UInt8) (ns : List (List UInt8)) :
    cStrings (n :: ns) = n ++ 0 :: cStrings ns := by simp [cStrings]
@[simp] theorem cStrings_append (ns ns' : List (List UInt8)) :
    cStrings (ns ++ ns') = cStrings ns ++ cStrings ns' := List.flatMap_append ..

theorem addArchiveSymbols_ok {syms : List ObjectSymbol} {symNames symNames' : List UInt8}
    {ret : List Nat} (h : addArchiveSymbols syms symNames = .ok (ret, symNames')) :
    ret = cStringOffsets symNames.length (archiveNames syms) ∧
      symNames' = symNames ++ cStrings (archiveNames syms) := by
  induction syms generalizing symNames ret with
  | nil => cases h; simp [archiveNames, cStringOffsets]
  | cons sym syms ih =>
    unfold addArchiveSymbols at h
    by_cases ha : isArchiveSymbol sym
    · simp only [ha, Bool.not_true, Bool.false_eq_true, if_false] at h
      cases hn : sym.nameBytes with
      | none => simp [hn] at h
      | some name =>
        simp only [hn, except_bind_eq_ok, pure, Except.pure, Except.ok.injEq,
          Prod.mk.injEq] at h
        obtain ⟨⟨ret', sn⟩, h₁, rfl, rfl⟩ := h
        obtain ⟨rfl, rfl⟩ := ih h₁
        simp [archiveNames, List.filter_cons, ha, hn, cStringOffsets, Nat.add_assoc]
    · simp only [ha, Bool.not_false, if_true] at h
      simpa [archiveNames, List.filter_cons, ha] using ih h

theorem getSymbols_ok {parse : ObjectParser} {buf symNames symNames' : List UInt8}
    {hasObject hasObject' : Bool} {ret : List Nat}
    (h : getSymbols parse buf symNames hasObject = .ok (ret, symNames', hasObject')) :
    ret = cStringOffsets symNames.length (payloadSymbolNames parse buf) ∧
      symNames' = symNames ++ cStrings (payloadSymbolNames parse buf) ∧
      hasObject' = (hasObject || (parse buf).isSome) := by
  unfold getSymbols at h
  unfold payloadSymbolNames
  split at h
  · simp only [except_bind_eq_ok, pure, Except.pure, Except.ok.injEq, Prod.mk.injEq] at h
    obtain ⟨⟨ret', sn⟩, h₁, rfl, rfl, rfl⟩ := h
    simpa [*] using addArchiveSymbols_ok h₁
  · cases h; simp [*, cStringOffsets]

end ArchiveWriter
