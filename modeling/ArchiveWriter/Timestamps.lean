import ArchiveWriter.Writer

/-!
# Unique timestamps on Darwin

In deterministic mode on Darwin, `compute_member_data` first counts how often each name
occurs, lowers every count above one to one, and then gives each member the count kept
for its name before raising it. So the `k`-th member of a name gets timestamp `k`, which
the Darwin debugger needs to tell same-named members apart.
-/

namespace ArchiveWriter

open ArchiveKind

theorem foldl_countNames (ms : List NewArchiveMember) (c : String → Option Nat) (n : String) :
    ms.foldl bumpCount c n =
      if n ∈ ms.map (·.memberName) then some ((c n).getD 0 + (ms.map (·.memberName)).count n)
      else c n := by
  induction ms generalizing c with
  | nil => simp
  | cons m ms ih =>
    rw [List.foldl_cons, ih, bumpCount]
    by_cases hn : n = m.memberName
    · subst hn; simp [Nat.add_assoc, Nat.add_comm 1, List.count_eq_zero]
    · simp [Function.update_noteq hn, hn, List.count_cons, Ne.symm hn]

/-- After the two loops over the members, every name present starts at one. -/
theorem lowerCounts_countNames {ms : List NewArchiveMember} {m : NewArchiveMember} (hm : m ∈ ms) :
    lowerCounts (countNames ms) m.memberName = some 1 := by
  have hn : m.memberName ∈ ms.map (·.memberName) := List.mem_map_of_mem _ hm
  have hc := List.count_pos_iff.2 hn
  simp only [lowerCounts, countNames, foldl_countNames, if_pos hn, Option.getD_none,
    Nat.zero_add, Option.map_some']
  split
  · rfl
  · simp only [Option.some.injEq]; omega

/-- With unique timestamps, a member takes the count kept for its name, one more than the
members of that name in `p`; the counts then stand for `p` and this member. -/
theorem memberMtime_count {fc fc' : String → Option Nat} {m : NewArchiveMember} {t : Nat}
    {p : List String} {ms : List NewArchiveMember} (h : memberMtime true fc m = .ok (t, fc'))
    (hfc : ∀ m' ∈ m :: ms, fc m'.memberName = some (p.count m'.memberName + 1)) :
    t = p.count m.memberName + 1 ∧
      ∀ m' ∈ ms, fc' m'.memberName = some ((p ++ [m.memberName]).count m'.memberName + 1) := by
  simp only [memberMtime, if_true, hfc m (List.mem_cons_self ..), Except.ok.injEq,
    Prod.mk.injEq, Nat.add_sub_cancel] at h
  obtain ⟨rfl, rfl⟩ := h
  refine ⟨rfl, fun m' hm' => ?_⟩
  by_cases hn : m'.memberName = m.memberName
  · rw [hn]; simp
  · rw [Function.update_noteq hn, hfc m' (List.mem_cons_of_mem _ hm')]
    simp [List.count_append, List.count_singleton, hn]

/-- With unique timestamps, a BSD header's timestamp is one more than the number of
members of the same name before it, those named in `p` (already printed) included. -/
theorem computeMembers_mtime {parse : ObjectParser} {kind : ArchiveKind} (hk : kind.Writable)
    (hb : kind.bsd = true) {thin needSymbols : Bool} :
    ∀ {p : List String} {s s' : Acc} {ms : List NewArchiveMember} {ds : List MemberData},
    (∀ m ∈ ms, s.filenameCount m.memberName = some (p.count m.memberName + 1)) →
    computeMembers parse kind thin needSymbols true s ms = .ok (ds, s') →
    ∀ (i : Nat) (m : NewArchiveMember) (d : MemberData), ms[i]? = some m → ds[i]? = some d →
      ∃ pos size, d.header = printBsdMemberHeader pos m.memberName
        ((p ++ (ms.take i).map (·.memberName)).count m.memberName + 1)
        m.uid.toNat m.gid.toNat m.perms.toNat size
  | p, s, s', [], ds, _, h => by cases h; simp
  | p, s, s', m :: ms, ds, hfc, h => by
    obtain ⟨d, s₁, ds', h₁, h₂, rfl⟩ := computeMembers_cons_ok h
    obtain ⟨mtime, -, -, -, hmt, hhdr, -, -⟩ := computeMember_ok h₁
    obtain ⟨rfl, hfc'⟩ := memberMtime_count hmt hfc
    rw [printMemberHeader_bsd hk hb] at hhdr
    simp only [Except.ok.injEq, Prod.mk.injEq] at hhdr
    intro i m' d' hm' hd'
    cases i with
    | zero =>
      simp only [List.getElem?_cons_zero, Option.some.injEq] at hm' hd'
      subst hm' hd'
      exact ⟨s.pos, _, by simpa using hhdr.1.symm⟩
    | succ i =>
      simp only [List.getElem?_cons_succ] at hm' hd'
      obtain ⟨pos, size, hd⟩ := computeMembers_mtime hk hb hfc' h₂ i m' d' hm' hd'
      exact ⟨pos, size, by simpa using hd⟩

/-- A later member of a name has seen one more member of that name. -/
theorem count_take_lt {ms : List NewArchiveMember} {i j : Nat} {m m' : NewArchiveMember}
    (hij : i < j) (hm : ms[i]? = some m) (hn : m.memberName = m'.memberName) :
    ((ms.take i).map (·.memberName)).count m.memberName <
      ((ms.take j).map (·.memberName)).count m'.memberName := by
  have hp : List.Sublist ((ms.take (i + 1)).map (·.memberName)) ((ms.take j).map (·.memberName)) :=
    ((List.take_prefix_take_left ms hij).sublist).map _
  have hc := hp.count_le m.memberName
  rw [List.take_succ, hm] at hc
  simp only [Option.toList_some, List.map_append, List.map_cons, List.map_nil,
    List.count_append, List.count_singleton_self] at hc
  rw [← hn]; omega

/-- In deterministic mode on Darwin, every member's header carries a timestamp one more than
the number of members of its name before it, whatever the member's own timestamp. -/
theorem computeMemberData_darwin_mtime {parse : ObjectParser} {kind : ArchiveKind}
    (hk : kind = Darwin ∨ kind = Darwin64) {thin needSymbols : Bool}
    {newMembers : List NewArchiveMember} {ret : List MemberData}
    {stringTable symNames : List UInt8}
    (h : computeMemberData parse kind thin true needSymbols newMembers =
      .ok (ret, stringTable, symNames))
    {i : Nat} {m : NewArchiveMember} (hm : newMembers[i]? = some m) :
    ∃ d pos size, ret[i]? = some d ∧ d.header = printBsdMemberHeader pos m.memberName
      (((newMembers.take i).map (·.memberName)).count m.memberName + 1)
      m.uid.toNat m.gid.toNat m.perms.toNat size := by
  have hdw : isDarwin kind = true := by rcases hk with rfl | rfl <;> rfl
  have hb : kind.bsd = true := by rcases hk with rfl | rfl <;> rfl
  obtain ⟨d, hd⟩ := computeMemberData_record h hm
  obtain ⟨s, hs, -, -⟩ := computeMemberData_ok h
  simp only [hdw, Bool.and_self, if_true] at hs
  have hinit : ∀ m ∈ newMembers, (initAcc (lowerCounts (countNames newMembers))).filenameCount
      m.memberName = some (([] : List String).count m.memberName + 1) := fun m hm => by
    simpa [initAcc] using lowerCounts_countNames hm
  obtain ⟨pos, size, hh⟩ := computeMembers_mtime (writable_of_bsd hb) hb hinit hs i m d hm hd
  exact ⟨d, pos, size, hd, by simpa using hh⟩

theorem darwin_unique_timestamps {parse : ObjectParser} {kind : ArchiveKind}
    (hk : kind = Darwin ∨ kind = Darwin64) {thin needSymbols : Bool}
    {newMembers : List NewArchiveMember} {ret : List MemberData}
    {stringTable symNames : List UInt8}
    (h : computeMemberData parse kind thin true needSymbols newMembers =
      .ok (ret, stringTable, symNames)) :
    ret.length = newMembers.length ∧
    (∀ (i : Nat) (m : NewArchiveMember), newMembers[i]? = some m →
      ∃ d pos size, ret[i]? = some d ∧ d.header = printBsdMemberHeader pos m.memberName
        (((newMembers.take i).map (·.memberName)).count m.memberName + 1)
        m.uid.toNat m.gid.toNat m.perms.toNat size) ∧
    (∀ (i j : Nat) (m m' : NewArchiveMember), i < j → newMembers[i]? = some m →
      newMembers[j]? = some m' → m.memberName = m'.memberName →
      ∃ d d' t t' pos size pos' size', ret[i]? = some d ∧ ret[j]? = some d' ∧ 0 < t ∧ t < t' ∧
        d.header = printBsdMemberHeader pos m.memberName t
          m.uid.toNat m.gid.toNat m.perms.toNat size ∧
        d'.header = printBsdMemberHeader pos' m'.memberName t'
          m'.uid.toNat m'.gid.toNat m'.perms.toNat size') := by
  refine ⟨computeMemberData_length h, fun _ _ => computeMemberData_darwin_mtime hk h,
    fun i j m m' hij hm hm' hn => ?_⟩
  obtain ⟨d, pos, size, hd, hh⟩ := computeMemberData_darwin_mtime hk h hm
  obtain ⟨d', pos', size', hd', hh'⟩ := computeMemberData_darwin_mtime hk h hm'
  exact ⟨d, d', _, _, pos, size, pos', size', hd, hd', Nat.succ_pos _,
    Nat.succ_lt_succ (count_take_lt hij hm hn), hh, hh'⟩

/-- Two members of one name, as a Darwin linker sees when an archive holds two `x.o`. -/
def twoSameName : List NewArchiveMember :=
  [⟨[1, 2, 3], "x.o", 0, 0, 0, 0⟩, ⟨[4, 5], "x.o", 0, 0, 0, 0⟩]

theorem two_same_name_timestamps :
    ∃ ret stringTable symNames,
      computeMemberData (fun _ => none) Darwin false true false twoSameName =
        .ok (ret, stringTable, symNames) ∧ ret.length = 2 ∧
      ∃ d d' t t' pos size pos' size', ret[0]? = some d ∧ ret[1]? = some d' ∧ 0 < t ∧ t < t' ∧
        d.header = printBsdMemberHeader pos "x.o" t 0 0 0 size ∧
        d'.header = printBsdMemberHeader pos' "x.o" t' 0 0 0 size' := by
  obtain ⟨⟨ret, st, sn⟩, hr⟩ : ∃ r, computeMemberData (fun _ => none) Darwin false true false
      twoSameName = .ok r := ⟨_, rfl⟩
  have hu := darwin_unique_timestamps (.inl rfl) hr
  have hx := hu.2.2 0 1 ⟨[1, 2, 3], "x.o", 0, 0, 0, 0⟩ ⟨[4, 5], "x.o", 0, 0, 0, 0⟩ Nat.one_pos
    rfl rfl rfl
  exact ⟨ret, st, sn, hr, hu.1, hx⟩

/-! ## Names that occur once

The LLVM original lowers a count above one to one and every other count to zero, so a name
that occurs once keeps timestamp 0. Here only the counts above one are lowered, and a count
of one stays one: the member of a name that occurs once gets timestamp 1, like the first
member of a repeated name, and not its own. -/

/-- A member whose name occurs once has no member of its name before it. -/
theorem count_take_of_count_eq_one {ms : List NewArchiveMember} {i : Nat} {m : NewArchiveMember}
    (hm : ms[i]? = some m) (hc : (ms.map (·.memberName)).count m.memberName = 1) :
    ((ms.take i).map (·.memberName)).count m.memberName = 0 := by
  have hle := ((List.take_sublist (i + 1) ms).map (·.memberName)).count_le m.memberName
  rw [List.take_succ, hm] at hle
  simp only [Option.toList_some, List.map_append, List.map_cons, List.map_nil,
    List.count_append, List.count_singleton_self] at hle
  omega

theorem darwin_single_name_timestamp {parse : ObjectParser} {kind : ArchiveKind}
    (hk : kind = Darwin ∨ kind = Darwin64) {thin needSymbols : Bool}
    {newMembers : List NewArchiveMember} {ret : List MemberData}
    {stringTable symNames : List UInt8}
    (h : computeMemberData parse kind thin true needSymbols newMembers =
      .ok (ret, stringTable, symNames))
    {i : Nat} {m : NewArchiveMember} (hm : newMembers[i]? = some m)
    (hunique : (newMembers.map (·.memberName)).count m.memberName = 1) :
    ret.length = newMembers.length ∧ ∃ d pos size, ret[i]? = some d ∧ d.header =
      printBsdMemberHeader pos m.memberName 1 m.uid.toNat m.gid.toNat m.perms.toNat size := by
  obtain ⟨d, pos, size, hd, hh⟩ := computeMemberData_darwin_mtime hk h hm
  exact ⟨computeMemberData_length h, d, pos, size, hd,
    by rw [hh, count_take_of_count_eq_one hm hunique]⟩

/-- A member of timestamp 0, as deterministic archives are built. -/
def zeroTimeMember : NewArchiveMember := ⟨[1, 2], "a.o", 0, 0, 0, 0⟩

/-- Alone in a deterministic Darwin archive, it is written with timestamp 1. -/
theorem single_member_timestamp_one :
    (writeArchiveToStream (fun _ => none) [zeroTimeMember] false Darwin true false).run [] =
        .ok () (archiveMagic false ++ printBsdMemberHeader 0 "a.o" 1 0 0 0 8 ++
          ([1, 2] ++ List.replicate 6 10)) ∧
      ∃ ret stringTable symNames,
        computeMemberData (fun _ => none) Darwin false true false [zeroTimeMember] =
          .ok (ret, stringTable, symNames) ∧ ret.length = 1 ∧
        ∃ d pos size, ret[0]? = some d ∧ d.header = printBsdMemberHeader pos "a.o" 1 0 0 0 size := by
  obtain ⟨⟨ret, st, sn⟩, hr⟩ : ∃ r, computeMemberData (fun _ => none) Darwin false true false
      [zeroTimeMember] = .ok r := ⟨_, rfl⟩
  have hz := darwin_single_name_timestamp (.inl rfl) hr
    (show [zeroTimeMember][0]? = some zeroTimeMember from rfl) rfl
  exact ⟨rfl, ret, st, sn, hr, hz⟩

end ArchiveWriter
