import ArchiveWriter.Symbols

/-!
# Per-member data

`compute_member_data` walks the members once. For each it chooses the payload (none in a
thin archive), the padding, the timestamp, checks the size, prints the header (which may
append to the string table) and, when a symbol table is wanted, collects the member's
archive symbols. `pos` counts the bytes of the members before the current one, from zero:
the magic and the symbol table are left out.
-/

namespace ArchiveWriter

open ArchiveKind

/-- The variables the loop of `compute_member_data` carries from one member to the next:
`pos`, the `string_table` and `sym_names` cursors, the `member_names` and
`filename_count` maps and `has_object`. -/
structure Acc where
  pos : Nat
  stringTable : List UInt8
  symNames : List UInt8
  memberNames : String → Option Nat
  filenameCount : String → Option Nat
  hasObject : Bool

/-- `&PADDING_DATA[..n]`, a slice of eight newlines. -/
def paddingData (n : Nat) : Except ArchiveError (List UInt8) :=
  if n ≤ 8 then .ok (List.replicate n 10)
  else .error (.panic "range end index out of range for slice of length 8")

/-- The timestamp a member's header gets: with unique timestamps, the count kept for its
name, raised by one for the next member of that name; otherwise the member's own. -/
def memberMtime (uniqueTimestamps : Bool) (filenameCount : String → Option Nat)
    (m : NewArchiveMember) : Except ArchiveError (Nat × (String → Option Nat)) :=
  if uniqueTimestamps then
    match filenameCount m.memberName with
    | some c => .ok (c + 1 - 1, Function.update filenameCount m.memberName (some (c + 1)))
    | none => .error (.panic "called Option::unwrap() on a None value")
  else .ok (m.mtime.toNat, filenameCount)

/-- The body of the member loop of `compute_member_data`. -/
def computeMember (parse : ObjectParser) (kind : ArchiveKind)
    (thin needSymbols uniqueTimestamps : Bool) (s : Acc) (m : NewArchiveMember) :
    Except ArchiveError (MemberData × Acc) := do
  let data := if thin then [] else m.buf
  let memberPadding := if isDarwin kind then offsetToAlignment data.length 8 else 0
  let tailPadding := offsetToAlignment (data.length + memberPadding) 2
  let padding ← paddingData (memberPadding + tailPadding)
  let (mtime, filenameCount) ← memberMtime uniqueTimestamps s.filenameCount m
  let size := data.length + memberPadding
  if size > maxMemberSize then
    throw (.other ("Archive member " ++ m.memberName ++ " is too big"))
  let (header, stringTable, memberNames) ←
    printMemberHeader s.pos s.stringTable s.memberNames kind thin m mtime size
  let (symbols, symNames, hasObject) ←
    if needSymbols then getSymbols parse data s.symNames s.hasObject
    else pure ([], s.symNames, s.hasObject)
  return ({ symbols, header, data, padding },
    { pos := s.pos + (header.length + data.length + padding.length), stringTable, symNames,
      memberNames, filenameCount, hasObject })

/-- `size` in `compute_member_data`: the payload (none in a thin archive) and, on Darwin,
its padding to a multiple of eight. -/
def memberSize (kind : ArchiveKind) (thin : Bool) (m : NewArchiveMember) : Nat :=
  let data := if thin then [] else m.buf
  data.length + if isDarwin kind then offsetToAlignment data.length 8 else 0

/-- The member loop of `compute_member_data`. -/
def computeMembers (parse : ObjectParser) (kind : ArchiveKind)
    (thin needSymbols uniqueTimestamps : Bool) :
    Acc → List NewArchiveMember → Except ArchiveError (List MemberData × Acc)
  | s, [] => .ok ([], s)
  | s, m :: ms => do
    let (d, s') ← computeMember parse kind thin needSymbols uniqueTimestamps s m
    let (ds, s'') ← computeMembers parse kind thin needSymbols uniqueTimestamps s' ms
    return (d :: ds, s'')

/-- `*filename_count.entry(name).or_insert(0) += 1`. -/
def bumpCount (c : String → Option Nat) (m : NewArchiveMember) : String → Option Nat :=
  Function.update c m.memberName (some ((c m.memberName).getD 0 + 1))

/-- The first loop over the members when timestamps are made unique: how often each
name occurs. -/
def countNames (ms : List NewArchiveMember) : String → Option Nat :=
  ms.foldl bumpCount fun _ => none

/-- The second loop: every count above one is lowered to one. -/
def lowerCounts (c : String → Option Nat) : String → Option Nat :=
  fun name => (c name).map fun k => if k > 1 then 1 else k

/-- `compute_member_data`: the member data, with the string table and the symbol name
buffer it wrote into the two empty cursors its caller passes. -/
def computeMemberData (parse : ObjectParser) (kind : ArchiveKind)
    (thin deterministic needSymbols : Bool) (newMembers : List NewArchiveMember) :
    Except ArchiveError (List MemberData × List UInt8 × List UInt8) := do
  let uniqueTimestamps := deterministic && isDarwin kind
  let filenameCount :=
    if uniqueTimestamps then lowerCounts (countNames newMembers) else fun _ => none
  let (ret, s) ← computeMembers parse kind thin needSymbols uniqueTimestamps
    { pos := 0, stringTable := [], symNames := [], memberNames := fun _ => none,
      filenameCount, hasObject := false } newMembers
  let symNames :=
    if s.hasObject && s.symNames.length == 0 then s.symNames ++ [0, 0, 0] else s.symNames
  return (ret, s.stringTable, symNames)


/-! ## What one step and the whole loop do -/

theorem paddingData_ok {n : Nat} {p : List UInt8} (h : paddingData n = .ok p) :
    p = List.replicate n 10 := by
  unfold paddingData at h
  split at h <;> cases h
  rfl

theorem computeMember_ok {parse : ObjectParser} {kind : ArchiveKind}
    {thin needSymbols uniqueTimestamps : Bool} {s s' : Acc} {m : NewArchiveMember} {d : MemberData}
    (h : computeMember parse kind thin needSymbols uniqueTimestamps s m = .ok (d, s')) :
    let data := if thin then [] else m.buf
    let memberPadding := if isDarwin kind then offsetToAlignment data.length 8 else 0
    ∃ mtime,
      d.data = data ∧
      d.padding =
        List.replicate (memberPadding + offsetToAlignment (data.length + memberPadding) 2) 10 ∧
      data.length + memberPadding ≤ maxMemberSize ∧
      memberMtime uniqueTimestamps s.filenameCount m = .ok (mtime, s'.filenameCount) ∧
      printMemberHeader s.pos s.stringTable s.memberNames kind thin m mtime
        (data.length + memberPadding) = .ok (d.header, s'.stringTable, s'.memberNames) ∧
      (if needSymbols then
          getSymbols parse data s.symNames s.hasObject = .ok (d.symbols, s'.symNames, s'.hasObject)
        else d.symbols = [] ∧ s'.symNames = s.symNames ∧ s'.hasObject = s.hasObject) ∧
      s'.pos = s.pos + (d.header.length + d.data.length + d.padding.length) := by
  simp only [computeMember, except_bind_eq_ok] at h
  dsimp only
  generalize (if thin = true then [] else m.buf) = data at h ⊢
  generalize (if isDarwin kind = true then offsetToAlignment data.length 8 else 0) = mp at h ⊢
  obtain ⟨padding, hpad, ⟨mtime, fc⟩, hmt, h⟩ := h
  split at h
  · simp [throw, throwThe, MonadExceptOf.throw, bind, Except.bind] at h
  · rename_i hsize
    simp only [except_bind_eq_ok, pure_bind] at h
    obtain ⟨⟨header, st, mn⟩, hhdr, h⟩ := h
    split at h <;>
    · simp only [except_bind_eq_ok, pure_bind, pure, Except.pure, Except.ok.injEq, Prod.mk.injEq] at h
      obtain ⟨⟨syms, sn, ho⟩, hsym, rfl, rfl⟩ := h
      refine ⟨mtime, rfl, paddingData_ok hpad, by omega, hmt, hhdr, ?_, rfl⟩
      simp_all

theorem computeMembers_cons_ok {parse : ObjectParser} {kind : ArchiveKind}
    {thin needSymbols uniqueTimestamps : Bool} {s s'' : Acc} {m : NewArchiveMember}
    {ms : List NewArchiveMember} {ds : List MemberData}
    (h : computeMembers parse kind thin needSymbols uniqueTimestamps s (m :: ms) = .ok (ds, s'')) :
    ∃ d s' ds', computeMember parse kind thin needSymbols uniqueTimestamps s m = .ok (d, s') ∧
      computeMembers parse kind thin needSymbols uniqueTimestamps s' ms = .ok (ds', s'') ∧
      ds = d :: ds' := by
  simp only [computeMembers, except_bind_eq_ok, pure, Except.pure, Except.ok.injEq,
    Prod.mk.injEq] at h
  obtain ⟨⟨d, s'⟩, h₁, ⟨ds', s₂⟩, h₂, rfl, rfl⟩ := h
  exact ⟨d, s', ds', h₁, h₂, rfl⟩

theorem computeMembers_length {parse : ObjectParser} {kind : ArchiveKind}
    {thin needSymbols uniqueTimestamps : Bool} {s s' : Acc} {ms : List NewArchiveMember}
    {ds : List MemberData}
    (h : computeMembers parse kind thin needSymbols uniqueTimestamps s ms = .ok (ds, s')) :
    ds.length = ms.length := by
  induction ms generalizing s ds with
  | nil => cases h; rfl
  | cons m ms ih =>
    obtain ⟨d, s₁, ds', -, h₂, rfl⟩ := computeMembers_cons_ok h
    simp [ih h₂]

/-- The state `compute_member_data` starts its loop in. -/
def initAcc (filenameCount : String → Option Nat) : Acc :=
  { pos := 0, stringTable := [], symNames := [], memberNames := fun _ => none, filenameCount,
    hasObject := false }

theorem computeMemberData_ok {parse : ObjectParser} {kind : ArchiveKind}
    {thin deterministic needSymbols : Bool} {newMembers : List NewArchiveMember}
    {ret : List MemberData} {stringTable symNames : List UInt8}
    (h : computeMemberData parse kind thin deterministic needSymbols newMembers =
      .ok (ret, stringTable, symNames)) :
    let uniqueTimestamps := deterministic && isDarwin kind
    ∃ s, computeMembers parse kind thin needSymbols uniqueTimestamps
        (initAcc (if uniqueTimestamps then lowerCounts (countNames newMembers) else fun _ => none))
        newMembers = .ok (ret, s) ∧ stringTable = s.stringTable ∧
      symNames = if s.hasObject && s.symNames.length == 0 then s.symNames ++ [0, 0, 0]
        else s.symNames := by
  simp only [computeMemberData, except_bind_eq_ok, pure, Except.pure, Except.ok.injEq,
    Prod.mk.injEq] at h
  obtain ⟨⟨ret', s⟩, h₁, rfl, rfl, rfl⟩ := h
  exact ⟨s, h₁, rfl, rfl⟩

theorem computeMemberData_length {parse : ObjectParser} {kind : ArchiveKind}
    {thin deterministic needSymbols : Bool} {newMembers : List NewArchiveMember}
    {ret : List MemberData} {stringTable symNames : List UInt8}
    (h : computeMemberData parse kind thin deterministic needSymbols newMembers =
      .ok (ret, stringTable, symNames)) :
    ret.length = newMembers.length :=
  let ⟨_, hs, _⟩ := computeMemberData_ok h
  computeMembers_length hs

/-- Every member has its record. -/
theorem computeMemberData_record {parse : ObjectParser} {kind : ArchiveKind}
    {thin deterministic needSymbols : Bool} {newMembers : List NewArchiveMember}
    {ret : List MemberData} {stringTable symNames : List UInt8}
    (h : computeMemberData parse kind thin deterministic needSymbols newMembers =
      .ok (ret, stringTable, symNames)) {i : Nat} {m : NewArchiveMember}
    (hm : newMembers[i]? = some m) : ∃ d, ret[i]? = some d :=
  have hi : i < ret.length := computeMemberData_length h ▸ (List.getElem?_eq_some_iff.1 hm).1
  ⟨_, List.getElem?_eq_getElem hi⟩


/-! ## The symbols the loop collects -/

/-- The archive symbols' names `get_symbols` finds in the payload it is given for `m`. -/
def memberSymbolNames (parse : ObjectParser) (thin : Bool) (m : NewArchiveMember) :
    List (List UInt8) :=
  payloadSymbolNames parse (if thin then [] else m.buf)

/-- The name offsets handed out member by member, from `base` on. -/
def groupOffsets : Nat → List (List (List UInt8)) → List (List Nat)
  | _, [] => []
  | base, g :: gs => cStringOffsets base g :: groupOffsets (base + (cStrings g).length) gs

theorem groupOffsets_lt : ∀ {base : Nat} {gs : List (List (List UInt8))} {g : List Nat} {o : Nat},
    g ∈ groupOffsets base gs → o ∈ g → o < base + (cStrings gs.flatten).length
  | _, [], _, _, h, _ => by simp [groupOffsets] at h
  | base, g :: gs, g', o, h, ho => by
    simp only [groupOffsets, List.mem_cons] at h
    rcases h with rfl | h
    · have := cStringOffsets_lt ho; simp at this ⊢; omega
    · have := groupOffsets_lt h ho; simp at this ⊢; omega

theorem computeMembers_symbols {parse : ObjectParser} {kind : ArchiveKind}
    {thin uniqueTimestamps : Bool} {s s' : Acc} {ms : List NewArchiveMember}
    {ds : List MemberData}
    (h : computeMembers parse kind thin true uniqueTimestamps s ms = .ok (ds, s')) :
    let groups := ms.map (memberSymbolNames parse thin)
    ds.map (·.symbols) = groupOffsets s.symNames.length groups ∧
      s'.symNames = s.symNames ++ cStrings groups.flatten ∧
      s'.hasObject = (s.hasObject || ms.any fun m => (parse (if thin then [] else m.buf)).isSome) := by
  induction ms generalizing s ds with
  | nil => cases h; simp [groupOffsets]
  | cons m ms ih =>
    obtain ⟨d, s₁, ds', h₁, h₂, rfl⟩ := computeMembers_cons_ok h
    obtain ⟨-, -, -, -, -, -, hsym, -⟩ := computeMember_ok h₁
    obtain ⟨hd, hsn, hho⟩ := getSymbols_ok (if_pos rfl ▸ hsym)
    obtain ⟨ihd, ihsn, ihho⟩ := ih h₂
    refine ⟨?_, ?_, ?_⟩
    · simp [hd, ihd, hsn, groupOffsets, memberSymbolNames]
    · simp [ihsn, hsn, memberSymbolNames]
    · simp [ihho, hho, Bool.or_assoc]


/-- The symbols `compute_member_data` returns: each member's name offsets into the symbol
name buffer, which holds every name followed by a NUL (three NULs when objects were found
but none defines an archive symbol). -/
theorem computeMemberData_symbols {parse : ObjectParser} {kind : ArchiveKind}
    {thin deterministic : Bool} {newMembers : List NewArchiveMember} {ret : List MemberData}
    {stringTable symNames : List UInt8}
    (h : computeMemberData parse kind thin deterministic true newMembers =
      .ok (ret, stringTable, symNames)) :
    let groups := newMembers.map (memberSymbolNames parse thin)
    ret.map (·.symbols) = groupOffsets 0 groups ∧
      (symNames = cStrings groups.flatten ∨ groups.flatten = [] ∧ symNames = [0, 0, 0]) := by
  obtain ⟨s, hs, -, rfl⟩ := computeMemberData_ok h
  obtain ⟨hsym, hsn, -⟩ := computeMembers_symbols hs
  simp only [initAcc, List.nil_append, List.length_nil] at hsym hsn
  refine ⟨hsym, ?_⟩
  split
  · rename_i he
    simp only [Bool.and_eq_true, beq_iff_eq, List.length_eq_zero] at he
    rw [hsn] at he
    have : (newMembers.map (memberSymbolNames parse thin)).flatten = [] := by
      cases hg : (newMembers.map (memberSymbolNames parse thin)).flatten with
      | nil => rfl
      | cons n ns => simp [hg] at he
    exact .inr ⟨this, by simp [hsn, this]⟩
  · exact .inl hsn

end ArchiveWriter
