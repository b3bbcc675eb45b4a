import ArchiveWriter.Sizing

/-!
# Reading the symbol table back

A linker reads the symbol table as a word count (BSD: the entries' size in bytes), the
entries, and the symbol name buffer. A GNU entry is the offset of a member's header, and
the `i`-th entry's name is the `i`-th NUL-terminated string of the buffer; a BSD entry is
a name offset into the buffer followed by the member's offset. `readSymbolTable` reads a
table that way, and `symbol_table_sound` says that on every archive the writer produces,
it yields, member by member, each archive symbol of the member's payload paired with the
offset at which the member's header starts.
-/

namespace ArchiveWriter

open ArchiveKind

/-! ## Reading words and names -/

/-- A little-endian number. -/
def readLe : List UInt8 → Nat
  | [] => 0
  | b :: bs => b.toNat + 256 * readLe bs

/-- A word of the table, in the byte order `print_n_bits` uses for the kind. -/
def readNBits (kind : ArchiveKind) (bytes : List UInt8) : Nat :=
  readLe (if kind.bsd then bytes else bytes.reverse)

/-- The first `n` words of a table. -/
def readWords (kind : ArchiveKind) : Nat → List UInt8 → List Nat
  | 0, _ => []
  | n + 1, bytes => readNBits kind (bytes.take (offsetSizeOf kind)) ::
      readWords kind n (bytes.drop (offsetSizeOf kind))

/-- Consecutive words taken two by two. -/
def pairUp : List Nat → List (Nat × Nat)
  | a :: b :: rest => (a, b) :: pairUp rest
  | _ => []

/-- The NUL-terminated string at the front of a buffer. -/
def cString (bytes : List UInt8) : List UInt8 := bytes.takeWhile (· != 0)

/-- The first `n` NUL-terminated strings of a buffer. -/
def readCStrings : Nat → List UInt8 → List (List UInt8)
  | 0, _ => []
  | n + 1, bytes => cString bytes :: readCStrings n (bytes.dropWhile (· != 0)).tail

/-- How a linker reads the body of a symbol table (what follows its member header): for
each entry, the member offset and the name. -/
def readSymbolTable (kind : ArchiveKind) (body : List UInt8) : List (Nat × List UInt8) :=
  let w := offsetSizeOf kind
  let count := readNBits kind (body.take w)
  if kind.bsd then
    let n := count / (2 * w)
    let names := body.drop (w * (2 * n + 2))
    (pairUp (readWords kind (2 * n) (body.drop w))).map fun (so, mo) =>
      (mo, cString (names.drop so))
  else
    (readWords kind count (body.drop w)).zip (readCStrings count (body.drop (w * (count + 1))))

theorem leBytes_succ (w val : Nat) :
    leBytes (w + 1) val = (val % 256).toUInt8 :: leBytes w (val / 256) := by
  simp only [leBytes, List.range_succ_eq_map, List.map_cons, List.map_map, pow_zero,
    Nat.div_one]
  congr 1
  refine List.map_congr_left fun i _ => ?_
  simp [pow_succ, Nat.div_div_eq_div_mul, Nat.mul_comm]

theorem readLe_leBytes (w val : Nat) : readLe (leBytes w val) = val % 256 ^ w := by
  induction w generalizing val with
  | zero => simp [leBytes, readLe, Nat.mod_one]
  | succ w ih =>
    rw [leBytes_succ, readLe, ih, pow_succ', Nat.mod_mul, Nat.toUInt8,
      UInt8.toNat_ofNat_of_lt (Nat.mod_lt _ (by decide))]

theorem readNBits_nBits {kind : ArchiveKind} {val : Nat} (h : val < 256 ^ offsetSizeOf kind) :
    readNBits kind (nBits kind val) = val := by
  unfold readNBits nBits
  unfold offsetSizeOf at h
  split <;> split <;> simp_all [beBytes, readLe_leBytes, Nat.mod_eq_of_lt]


theorem readWords_flatMap {kind : ArchiveKind} {vs : List Nat}
    (hv : ∀ v ∈ vs, v < 256 ^ offsetSizeOf kind) (rest : List UInt8) :
    readWords kind vs.length (vs.flatMap (nBits kind) ++ rest) = vs := by
  induction vs with
  | nil => rfl
  | cons v vs ih =>
    have hl : (nBits kind v).length = offsetSizeOf kind := length_nBits kind v
    simp only [List.length_cons, readWords, List.flatMap_cons, List.append_assoc,
      List.take_left' hl, List.drop_left' hl, readNBits_nBits (hv v (List.mem_cons_self ..)),
      ih fun x hx => hv x (List.mem_cons_of_mem _ hx)]

theorem cString_append_nul : ∀ {n : List UInt8} (rest : List UInt8), 0 ∉ n →
    cString (n ++ 0 :: rest) = n ∧ (n ++ 0 :: rest).dropWhile (· != 0) = 0 :: rest
  | [], rest, _ => by simp [cString]
  | b :: n, rest, h => by
    have hb : b ≠ 0 := fun e => h (e ▸ List.mem_cons_self ..)
    have ih := cString_append_nul rest fun hn => h (List.mem_cons_of_mem _ hn)
    simp only [cString] at ih ⊢
    simp [hb, ih]

theorem readCStrings_cStrings {ns : List (List UInt8)} (h : ∀ n ∈ ns, 0 ∉ n)
    (rest : List UInt8) : readCStrings ns.length (cStrings ns ++ rest) = ns := by
  induction ns with
  | nil => rfl
  | cons n ns ih =>
    obtain ⟨h₁, h₂⟩ := cString_append_nul (cStrings ns ++ rest) (h n (List.mem_cons_self ..))
    simp only [List.length_cons, readCStrings, cStrings_cons, List.append_assoc,
      List.cons_append, h₁, h₂, List.tail_cons, ih fun x hx => h x (List.mem_cons_of_mem _ hx)]

/-- A BSD entry's name offset leads to the entry's name. -/
theorem cString_drop_cStringOffsets {buf rest : List UInt8} :
    ∀ {base : Nat} {ns : List (List UInt8)}, (∀ n ∈ ns, 0 ∉ n) →
    buf.drop base = cStrings ns ++ rest →
    (cStringOffsets base ns).map (fun so => cString (buf.drop so)) = ns
  | _, [], _, _ => rfl
  | base, n :: ns, h, hb => by
    rw [cStrings_cons, List.append_assoc, List.cons_append] at hb
    have hn := cString_append_nul (cStrings ns ++ rest) (h n (List.mem_cons_self ..))
    have hb' : buf.drop (base + (n.length + 1)) = cStrings ns ++ rest := by
      rw [← List.drop_drop, hb]; simp
    simp only [cStringOffsets, List.map_cons, hb, hn.1,
      cString_drop_cStringOffsets (fun x hx => h x (List.mem_cons_of_mem _ hx)) hb']

theorem length_cStringOffsets : ∀ (base : Nat) (ns : List (List UInt8)),
    (cStringOffsets base ns).length = ns.length
  | _, [] => rfl
  | base, _ :: ns => by simp [cStringOffsets, length_cStringOffsets _ ns]


/-! ## The entries `write_symbol_table` writes -/

/-- The entries of the table, (name offset, member offset), member by member. -/
def symbolEntries : Nat → List MemberData → List (Nat × Nat)
  | _, [] => []
  | pos, d :: ds => d.symbols.map (·, pos) ++
      symbolEntries (pos + (d.header.length + d.data.length + d.padding.length)) ds

theorem symbolValues_eq (bsd : Bool) (pos : Nat) (ds : List MemberData) :
    symbolValues bsd pos ds =
      (symbolEntries pos ds).flatMap fun e => (if bsd then [e.1] else []) ++ [e.2] := by
  induction ds generalizing pos with
  | nil => rfl
  | cons d ds ih =>
    simp only [symbolValues, symbolEntries, ih, memberValues, List.flatMap_append]
    congr 1
    induction d.symbols with
    | nil => rfl
    | cons so syms ihs => simp [ihs]

theorem length_symbolEntries (pos : Nat) (ds : List MemberData) :
    (symbolEntries pos ds).length = numSymbols ds := by
  induction ds generalizing pos with
  | nil => rfl
  | cons d ds ih => simp [symbolEntries, ih]

theorem pairUp_flatMap (es : List (Nat × Nat)) :
    pairUp (es.flatMap fun e => [e.1] ++ [e.2]) = es := by
  induction es with
  | nil => rfl
  | cons e es ih =>
    rw [List.flatMap_cons]
    show pairUp (e.1 :: e.2 :: _) = _
    rw [pairUp]
    exact congrArg _ ih


theorem take_drop_flatMap_nBits (kind : ArchiveKind) (vs : List Nat) (rest : List UInt8) :
    (vs.flatMap (nBits kind) ++ rest).drop (offsetSizeOf kind * vs.length) = rest :=
  List.drop_left' (length_flatMap_nBits kind vs)

/-- The first word of a table and what follows it. -/
theorem read_first_word {kind : ArchiveKind} {c : Nat} (hc : c < 256 ^ offsetSizeOf kind)
    (vs : List Nat) (rest : List UInt8) :
    readNBits kind (((c :: vs).flatMap (nBits kind) ++ rest).take (offsetSizeOf kind)) = c ∧
      ((c :: vs).flatMap (nBits kind) ++ rest).drop (offsetSizeOf kind) =
        vs.flatMap (nBits kind) ++ rest := by
  have hl : (nBits kind c).length = offsetSizeOf kind := length_nBits kind c
  simp only [List.flatMap_cons, List.append_assoc, List.take_left' hl, List.drop_left' hl,
    readNBits_nBits hc, and_self]

/-- Reading a table `write_symbol_table` wrote gives back its entries: BSD entries with
the name at their name offset, GNU entries with the names in order. -/
theorem readSymbolTable_eq {kind : ArchiveKind} {pos : Nat} {ds : List MemberData}
    {st : List UInt8} {pad : Nat}
    (hv : ∀ v ∈ symbolTableValues kind pos ds st, v < 256 ^ offsetSizeOf kind) :
    readSymbolTable kind ((symbolTableValues kind pos ds st).flatMap (nBits kind) ++ st ++
        List.replicate pad 0) =
      if kind.bsd then (symbolEntries pos ds).map fun e =>
        (e.2, cString ((st ++ List.replicate pad 0).drop e.1))
      else ((symbolEntries pos ds).map Prod.snd).zip
        (readCStrings (numSymbols ds) (st ++ List.replicate pad 0)) := by
  have hw : 0 < offsetSizeOf kind := by unfold offsetSizeOf; split <;> omega
  have hes := length_symbolEntries pos ds
  rw [List.append_assoc]
  generalize st ++ List.replicate pad 0 = tail
  cases hb : kind.bsd
  · -- GNU: the count, then one member offset per entry
    have hvs : symbolTableValues kind pos ds st = numSymbols ds :: (symbolEntries pos ds).map Prod.snd := by
      simp [symbolTableValues, hb, symbolValues_eq, List.map_eq_flatMap]
    rw [hvs] at hv ⊢
    have hl : ((symbolEntries pos ds).map Prod.snd).length = numSymbols ds := by simp [hes]
    generalize (symbolEntries pos ds).map Prod.snd = mid at hv hl ⊢
    obtain ⟨hc, hrest⟩ := read_first_word (hv _ (List.mem_cons_self ..)) mid tail
    have hmid : ∀ v ∈ mid, v < 256 ^ offsetSizeOf kind := fun v h => hv v (List.mem_cons_of_mem _ h)
    simp only [readSymbolTable, hb, Bool.false_eq_true, if_false, hc, hrest, Nat.mul_succ,
      Nat.add_comm _ (offsetSizeOf kind), ← List.drop_drop]
    rw [← hl, readWords_flatMap hmid, take_drop_flatMap_nBits]
  · -- BSD: the entries' size in bytes, pairs of name offset and member offset, the name
    -- buffer's size
    have hvs : symbolTableValues kind pos ds st = numSymbols ds * 2 * offsetSizeOf kind ::
        (((symbolEntries pos ds).flatMap fun e => [e.1] ++ [e.2]) ++ [st.length]) := by
      simp [symbolTableValues, hb, symbolValues_eq]
    rw [hvs] at hv ⊢
    have hl : ((symbolEntries pos ds).flatMap fun e => [e.1] ++ [e.2]).length =
        2 * numSymbols ds := by
      have hc : (List.length ∘ fun e : Nat × Nat => [e.1] ++ [e.2]) = fun _ => 2 := rfl
      rw [List.length_flatMap, hc, List.map_const', List.sum_replicate, hes, smul_eq_mul,
        Nat.mul_comm]
    have hp := pairUp_flatMap (symbolEntries pos ds)
    generalize ((symbolEntries pos ds).flatMap fun e => [e.1] ++ [e.2]) = mid at hv hl hp ⊢
    have hn : numSymbols ds * 2 * offsetSizeOf kind / (2 * offsetSizeOf kind) = numSymbols ds := by
      rw [Nat.mul_assoc]; exact Nat.mul_div_cancel _ (by omega)
    have hall : (numSymbols ds * 2 * offsetSizeOf kind :: (mid ++ [st.length])).length =
        2 * numSymbols ds + 2 := by simp [hl]
    obtain ⟨hc, hrest⟩ := read_first_word (hv _ (List.mem_cons_self ..)) (mid ++ [st.length]) tail
    have hmid : ∀ v ∈ mid, v < 256 ^ offsetSizeOf kind :=
      fun v h => hv v (List.mem_cons_of_mem _ (List.mem_append_left _ h))
    simp only [readSymbolTable, hb, if_true, hc, hn, hrest, ← hall, take_drop_flatMap_nBits]
    rw [List.flatMap_append, List.append_assoc, ← hl, readWords_flatMap hmid, hp]


/-! ## Entries and the members that define them -/

/-- Read in a BSD table, each entry of a member gives the member's offset and, through its
name offset, one of the member's names. -/
theorem symbolEntries_bsd {buf rest : List UInt8} :
    ∀ {pos base : Nat} {ds : List MemberData} {gs : List (List (List UInt8))},
    ds.map (·.symbols) = groupOffsets base gs → (∀ g ∈ gs, ∀ n ∈ g, 0 ∉ n) →
    buf.drop base = cStrings gs.flatten ++ rest →
    (symbolEntries pos ds).map (fun e => (e.2, cString (buf.drop e.1))) =
      (gs.zip (recordOffsets pos ds)).flatMap fun (g, o) => g.map (o, ·)
  | _, _, [], [], _, _, _ => rfl
  | _, _, [], _ :: _, hds, _, _ => by simp [groupOffsets] at hds
  | _, _, _ :: _, [], hds, _, _ => by simp [groupOffsets] at hds
  | pos, base, d :: ds, g :: gs, hds, hnul, hbuf => by
    simp only [List.map_cons, groupOffsets, List.cons.injEq] at hds
    obtain ⟨hd, hds⟩ := hds
    simp only [List.flatten_cons, cStrings_append, List.append_assoc] at hbuf
    have hbuf' : buf.drop (base + (cStrings g).length) = cStrings gs.flatten ++ rest := by
      rw [← List.drop_drop, hbuf, List.drop_left]
    have hg := cString_drop_cStringOffsets (hnul g (List.mem_cons_self ..)) hbuf
    have ih := @symbolEntries_bsd buf rest (pos + d.record.length) _ _ _ hds
      (fun g' hg' => hnul g' (List.mem_cons_of_mem _ hg')) hbuf'
    rw [← hd] at hg
    simp only [length_record] at ih
    simp only [symbolEntries, recordOffsets, List.map_append, List.map_map, List.zip_cons_cons,
      List.flatMap_cons, ih, length_record]
    congr 1
    conv_rhs => rw [← hg, List.map_map]
    rfl

theorem zip_map_const {α β γ : Type} (c : γ) :
    ∀ (l : List α) (g : List β), l.length = g.length → (l.map fun _ => c).zip g = g.map (c, ·)
  | [], [], _ => rfl
  | _ :: l, _ :: g, h => by
    simp only [List.map_cons, List.zip_cons_cons, zip_map_const c l g (by simpa using h)]

/-- Read in a GNU table, the entries of a member give its offset, next to the names in
order. -/
theorem symbolEntries_gnu :
    ∀ {pos base : Nat} {ds : List MemberData} {gs : List (List (List UInt8))},
    ds.map (·.symbols) = groupOffsets base gs →
    ((symbolEntries pos ds).map Prod.snd).zip gs.flatten =
      (gs.zip (recordOffsets pos ds)).flatMap fun (g, o) => g.map (o, ·)
  | _, _, [], [], _ => rfl
  | _, _, [], _ :: _, hds => by simp [groupOffsets] at hds
  | _, _, _ :: _, [], hds => by simp [groupOffsets] at hds
  | pos, base, d :: ds, g :: gs, hds => by
    simp only [List.map_cons, groupOffsets, List.cons.injEq] at hds
    obtain ⟨hd, hds⟩ := hds
    have hlen : (d.symbols.map fun _ => pos).length = g.length := by
      simp [hd, length_cStringOffsets]
    have ih := @symbolEntries_gnu (pos + d.record.length) _ _ _ hds
    simp only [length_record] at ih
    simp only [symbolEntries, recordOffsets, List.map_append, List.map_map, List.flatten_cons,
      List.zip_cons_cons, List.flatMap_cons, length_record, Function.comp_def]
    rw [List.zip_append hlen, ih, zip_map_const pos _ _ (by simpa using hlen)]


theorem numSymbols_of_groupOffsets : ∀ {base : Nat} {ds : List MemberData}
    {gs : List (List (List UInt8))}, ds.map (·.symbols) = groupOffsets base gs →
    numSymbols ds = gs.flatten.length
  | _, [], [], _ => rfl
  | _, [], _ :: _, hds => by simp [groupOffsets] at hds
  | _, _ :: _, [], hds => by simp [groupOffsets] at hds
  | _, d :: ds, g :: gs, hds => by
    simp only [List.map_cons, groupOffsets, List.cons.injEq] at hds
    simp [hds.1, length_cStringOffsets, numSymbols_of_groupOffsets hds.2]

/-- The string-table member carries no symbols. -/
theorem symbolEntries_stringTable (pos : Nat) (stringTable : List UInt8) (ds : List MemberData) :
    symbolEntries pos (computeStringTable stringTable :: ds) =
      symbolEntries (pos + (computeStringTable stringTable).record.length) ds := by
  simp [symbolEntries, computeStringTable]

/-! ## The symbol table is sound -/

/-- What a linker finds in the output `out` of `write_archive_to_stream`, whose members
were computed as `ret` with the string table `stringTable` and the symbol names
`symNames`: either no symbol table, and then no member has an archive symbol; or a symbol
table whose body is as long as `compute_symbol_table_size_and_pad` says, and which lists,
member by member, each archive symbol of the member's payload with the offset at which
the member's header starts. -/
def IndexSound (parse : ObjectParser) (thin : Bool) (newMembers : List NewArchiveMember)
    (out : List UInt8) (ret : List MemberData) (stringTable symNames : List UInt8) : Prop :=
  let strtab := if stringTable.isEmpty then [] else (computeStringTable stringTable).record
  ((∀ m ∈ newMembers, memberSymbolNames parse thin m = []) ∧
      out = archiveMagic thin ++ strtab ++ ret.flatMap MemberData.record) ∨
    ∃ kind' size pad body,
      computeSymbolTableSizeAndPad kind' (numSymbols ret) (offsetSizeOf kind') symNames =
        .ok (size, pad) ∧ body.length = size ∧
      let before := archiveMagic thin ++ symbolTableHeader kind' 8 size ++ body ++ strtab
      out = before ++ ret.flatMap MemberData.record ∧
      readSymbolTable kind' body = (newMembers.zip (recordOffsets before.length ret)).flatMap
        fun (m, o) => (memberSymbolNames parse thin m).map (o, ·)

theorem symbol_table_sound {parse : ObjectParser} {newMembers : List NewArchiveMember}
    {kind : ArchiveKind} {deterministic thin : Bool} {u : Unit} {out : List UInt8}
    (h : (writeArchiveToStream parse newMembers true kind deterministic thin).run [] = .ok u out)
    (hnul : ∀ m ∈ newMembers, ∀ name ∈ memberSymbolNames parse thin m, 0 ∉ name)
    (hlen : out.length < 2 ^ 64) :
    ∃ ret stringTable symNames,
      computeMemberData parse kind thin deterministic true newMembers =
        .ok (ret, stringTable, symNames) ∧
      IndexSound parse thin newMembers out ret stringTable symNames := by
  obtain ⟨data, symNames, kind', hp, symtab, hsymtab, hout⟩ := writeArchiveToStream_run_ok h
  simp only [if_true, List.nil_append] at hsymtab hout
  obtain ⟨-, ret, st, hc, hdata, -⟩ := prepareArchive_ok hp
  obtain ⟨hsym, hsn⟩ := computeMemberData_symbols hc
  refine ⟨ret, st, symNames, hc, ?_⟩
  unfold IndexSound
  generalize hstrtab : (if st.isEmpty then [] else (computeStringTable st).record) = strtab
  have hdrec : data.flatMap MemberData.record = strtab ++ ret.flatMap MemberData.record := by
    subst hdata hstrtab; split <;> simp
  have hentries : ∀ pos, symbolEntries pos data = symbolEntries (pos + strtab.length) ret := by
    intro pos; subst hdata hstrtab; split
    · simp
    · exact symbolEntries_stringTable ..
  have hnum : numSymbols data = numSymbols ret := by
    rw [← length_symbolEntries 0, hentries, length_symbolEntries]
  by_cases hs : SymtabSkipped kind' symNames
  · -- no table: there was nothing to index
    left
    rw [writeSymbolTable_run_skipped hs] at hsymtab
    simp only [EStateM.Result.ok.injEq, true_and, List.self_eq_append_right] at hsymtab
    subst hsymtab
    refine ⟨fun m hm => ?_, by rw [hout, hdrec]; simp⟩
    have hflat : (newMembers.map (memberSymbolNames parse thin)).flatten = [] := by
      rcases hsn with hsn | ⟨hflat, -⟩
      · rw [hs.1] at hsn
        cases hg : (newMembers.map (memberSymbolNames parse thin)).flatten with
        | nil => rfl
        | cons n ns => simp [hg] at hsn
      · exact hflat
    exact List.flatten_eq_nil_iff.1 hflat _ (List.mem_map_of_mem _ hm)
  · -- a table: read it back
    right
    rcases writeSymbolTable_run_ok hsymtab with ⟨hs', -⟩ | ⟨-, hk', -, size, pad, hsize, hfit, hw'⟩
    · exact absurd hs' hs
    simp only [length_archiveMagic, List.append_assoc, List.append_cancel_left_eq] at hw' hfit
    subst hw'
    set pos := 8 + (symbolTableHeader kind' 8 size).length + size with hpos
    have hbody := length_symbolTableBody hk' hsize pos
    refine ⟨kind', size, pad, (symbolTableValues kind' pos data symNames).flatMap (nBits kind') ++
      symNames ++ List.replicate pad 0, hnum ▸ hsize, hbody, ?_, ?_⟩
    · rw [hout, hdrec]; simp
    -- every value fits its word: below 2^32 in a 32-bit table, below the archive's length
    -- in a 64-bit one
    have hfits : ∀ v ∈ symbolTableValues kind' pos data symNames,
        v < 256 ^ offsetSizeOf kind' := by
      intro v hv
      cases h64 : is64BitKind kind'
      · have := (hfit v hv).resolve_left (by simp [h64])
        simpa [offsetSizeOf, h64] using this
      · have hle := symbolTableValues_le hk' hsize (symbols_lt_of_prepare hp) (by omega) v hv
        obtain ⟨t, ht⟩ := List.dropLast_prefix data
        have hdl : (data.dropLast.flatMap MemberData.record).length ≤
            (data.flatMap MemberData.record).length := by
          conv_rhs => rw [← ht]
          simp
        have hout' : pos + (data.dropLast.flatMap MemberData.record).length ≤ out.length := by
          rw [hout]
          simp only [List.length_append, length_archiveMagic] at hbody ⊢
          omega
        have h256 : (256 : Nat) ^ 8 = 2 ^ 64 := by norm_num
        simp only [offsetSizeOf, h64, if_true, h256]
        omega
    have hgroups : ∀ g ∈ newMembers.map (memberSymbolNames parse thin), ∀ n ∈ g, 0 ∉ n := by
      intro g hg n hn
      obtain ⟨m, hm, rfl⟩ := List.mem_map.1 hg
      exact hnul m hm n hn
    obtain ⟨rest, hbuf⟩ : ∃ rest, symNames ++ List.replicate pad 0 =
        cStrings (newMembers.map (memberSymbolNames parse thin)).flatten ++ rest := by
      rcases hsn with rfl | ⟨hflat, rfl⟩
      · exact ⟨_, rfl⟩
      · exact ⟨[0, 0, 0] ++ List.replicate pad 0, by simp [hflat]⟩
    have hP : (archiveMagic thin ++ symbolTableHeader kind' 8 size ++
        ((symbolTableValues kind' pos data symNames).flatMap (nBits kind') ++ symNames ++
          List.replicate pad 0) ++ strtab).length = pos + strtab.length := by
      simp only [List.length_append, length_archiveMagic] at hbody ⊢; omega
    simp only [hP, readSymbolTable_eq hfits, hentries]
    rw [show ∀ Q, (newMembers.zip (recordOffsets Q ret)).flatMap
        (fun (m, o) => (memberSymbolNames parse thin m).map (o, ·)) =
        ((newMembers.map (memberSymbolNames parse thin)).zip (recordOffsets Q ret)).flatMap
          fun (g, o) => g.map (o, ·) from fun Q => by rw [List.zip_map_left, List.flatMap_map]; rfl]
    split
    · exact symbolEntries_bsd hsym hgroups (by simpa using hbuf)
    · rw [hnum, numSymbols_of_groupOffsets hsym, hbuf, readCStrings_cStrings
        (fun n hn => by obtain ⟨g, hg, hn⟩ := List.mem_flatten.1 hn; exact hgroups g hg n hn)]
      exact symbolEntries_gnu hsym

def twoIndexed : List NewArchiveMember :=
  [⟨[1, 2, 3], "a_long_member_name.o", 0, 0, 0, 0⟩, ⟨[4], "b.o", 0, 0, 0, 0⟩]

theorem two_objects_index_sound :
    ∃ out, (writeArchiveToStream definesF twoIndexed true Gnu true false).run [] = .ok () out ∧
      ∃ ret stringTable symNames,
        computeMemberData definesF Gnu false true true twoIndexed =
          .ok (ret, stringTable, symNames) ∧
        IndexSound definesF false twoIndexed out ret stringTable symNames := by
  obtain ⟨data, hp, hrec, hnum⟩ : ∃ data,
      prepareArchive definesF twoIndexed true Gnu true false = .ok (data, [102, 0, 102, 0], Gnu) ∧
      (data.flatMap MemberData.record).length = 208 ∧ numSymbols data = 2 :=
    ⟨_, rfl, rfl, rfl⟩
  obtain ⟨out, hrun⟩ := writeArchiveToStream_run_of_prepare hp
  -- the output is the magic, a symbol table of at most 76 bytes, and the records
  have hlen : out.length < 2 ^ 64 := by
    obtain ⟨_, _, _, hp', symtab, hsymtab, rfl⟩ := writeArchiveToStream_run_ok hrun
    cases hp.symm.trans hp'
    simp only [if_true, List.nil_append] at hsymtab
    have hsym : symtab.length ≤ 76 := by
      rcases writeSymbolTable_run_ok hsymtab with ⟨-, hw⟩ | ⟨-, hk, -, size, pad, hsize, -, hw⟩
      · simp at hw; simp [hw]
      · have hbody := length_symbolTableBody hk hsize
        rw [hnum] at hsize
        obtain ⟨rfl, rfl⟩ : size = 16 ∧ pad = 0 := Prod.mk.inj (Except.ok.inj (hsize.symm.trans
          (rfl : computeSymbolTableSizeAndPad Gnu 2 (offsetSizeOf Gnu) [102, 0, 102, 0] =
            .ok (16, 0))))
        have hl := congrArg List.length hw
        have hb := hbody ((archiveMagic false).length +
          (symbolTableHeader Gnu (archiveMagic false).length 16).length + 16)
        have h60 : (symbolTableHeader Gnu (archiveMagic false).length 16).length = 60 := rfl
        simp only [List.length_append] at hl hb
        omega
    simp only [List.length_append, List.length_nil, length_archiveMagic, hrec]
    omega
  exact ⟨out, hrun, symbol_table_sound hrun (by decide) hlen⟩

set_option maxRecDepth 2000 in
/-- In a thin archive `get_symbols` is handed the empty slice in place of the member's
payload, so no member ever has symbol names and no symbol table is written, even for a
payload that defines a symbol. -/
theorem thin_archive_drops_symbols :
    payloadSymbolNames definesF [1, 2] = [[102]] ∧
      (writeArchiveToStream definesF oneObject true Gnu true true).run [] =
        .ok () (archiveMagic true ++ (computeStringTable (stringTableEntry "f.o")).record ++
          utf8 ('/' :: fmtLeft 15 (decimal 0)) ++ printRestOfMemberHeader 0 0 0 0 0) :=
  ⟨rfl, rfl⟩

end ArchiveWriter
