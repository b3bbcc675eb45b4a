import ArchiveWriter.Layout

/-!
# Reading an archive back

A reader of the `ar` format as the writer's headers lay it out: the eight-byte magic, then
records of a sixty-byte header (name 16, timestamp 12, uid 6, gid 6, mode 8 in octal,
size 10, a backquote and a newline) and `size` bytes, with a pad byte after a record that
ends at an odd offset. A GNU name is `N/` in the field, or `/K` with `K` an offset into the
data of the `//` member, where the name runs up to the next `/\n`; a BSD name is `#1/L`,
the name being the first `L` bytes after the header with its NUL padding removed, and the
size counting them. The symbol tables `/`, `/SYM64/`, `__.SYMDEF` and `__.SYMDEF_64` are
skipped. In a thin archive no data follows a member's header.

Each lemma of the last section reads one kind of record the writer prints, followed by
anything at all.
-/

namespace ArchiveWriter

open ArchiveKind

/-! ## Numbers -/

def isDigit (b : Nat) (c : UInt8) : Bool := 48 ≤ c.toNat && c.toNat < 48 + b

def digitsValue (b : Nat) (cs : List UInt8) : Nat := cs.foldl (fun acc c => acc * b + (c.toNat - 48)) 0

/-- A numeric header field: digits of base `b`, then spaces up to the field's end. -/
def parseNumber (b : Nat) (field : List UInt8) : Option Nat :=
  let digits := field.takeWhile (· != 32)
  if digits ≠ [] ∧ digits.all (isDigit b) ∧ (field.drop digits.length).all (· == 32) then
    some (digitsValue b digits)
  else none

theorem utf8_digitChar {d : Nat} (h : d < 10) : utf8 [Nat.digitChar d] = [(48 + d).toUInt8] := by
  interval_cases d <;> rfl

theorem toNat_toUInt8_of_lt {n : Nat} (h : n < 256) : n.toUInt8.toNat = n := by
  simp only [Nat.toUInt8, UInt8.ofNat, UInt8.toNat, BitVec.toNat_ofNat]
  omega

theorem toDigitsCore_append (b : Nat) :
    ∀ (f n : Nat) (ds : List Char), Nat.toDigitsCore b f n ds = Nat.toDigitsCore b f n [] ++ ds
  | 0, _, _ => rfl
  | f + 1, n, ds => by
    simp only [Nat.toDigitsCore]
    split
    · rfl
    · rw [toDigitsCore_append b f _ (_ :: ds), toDigitsCore_append b f _ [_]]
      simp

theorem digitsValue_append (b : Nat) (cs : List UInt8) (c : UInt8) :
    digitsValue b (cs ++ [c]) = digitsValue b cs * b + (c.toNat - 48) := by
  simp [digitsValue]

theorem utf8_toDigitsCore {b : Nat} (hb : 2 ≤ b) (hb10 : b ≤ 10) :
    ∀ (f n : Nat), n < f → utf8 (Nat.toDigitsCore b f n []) ≠ [] ∧
      (utf8 (Nat.toDigitsCore b f n [])).all (isDigit b) ∧
      digitsValue b (utf8 (Nat.toDigitsCore b f n [])) = n
  | 0, n, h => absurd h (Nat.not_lt_zero n)
  | f + 1, n, h => by
    have hlt : n % b < b := Nat.mod_lt n (by omega)
    have hd := utf8_digitChar (show n % b < 10 by omega)
    have hv : ((48 + n % b).toUInt8).toNat = 48 + n % b := toNat_toUInt8_of_lt (by omega)
    have hdig : isDigit b (48 + n % b).toUInt8 = true := by
      simp only [isDigit, hv, Bool.and_eq_true, decide_eq_true_eq]
      omega
    simp only [Nat.toDigitsCore]
    split
    · rename_i h0
      have : n % b = n := Nat.mod_eq_of_lt ((Nat.div_eq_zero_iff (by omega)).1 h0)
      rw [hd]
      refine ⟨List.cons_ne_nil _ _, by simp [hdig], ?_⟩
      simp only [digitsValue, List.foldl_cons, List.foldl_nil, hv]
      omega
    · rename_i h0
      obtain ⟨-, hall, hval⟩ := utf8_toDigitsCore hb hb10 f (n / b)
        (by
          have := Nat.div_lt_self (Nat.pos_of_ne_zero fun (hn : n = 0) => h0 (by rw [hn, Nat.zero_div])) (by omega : 1 < b)
          omega)
      rw [toDigitsCore_append, utf8_append, hd, digitsValue_append, hval, hv]
      refine ⟨by simp, by simp [hall, hdig], ?_⟩
      rw [Nat.add_sub_cancel_left]
      exact Nat.div_add_mod' n b

theorem utf8_replicate_space (k : Nat) : utf8 (List.replicate k ' ') = List.replicate k 32 := by
  induction k with
  | zero => rfl
  | succ k ih => rw [List.replicate_succ, utf8_cons, ih]; rfl

theorem parseNumber_fmtLeft {b : Nat} (hb : 2 ≤ b) (hb10 : b ≤ 10) (w n : Nat) :
    parseNumber b (utf8 (fmtLeft w (Nat.toDigits b n))) = some n := by
  obtain ⟨hne, hall, hval⟩ : utf8 (Nat.toDigits b n) ≠ [] ∧
      (utf8 (Nat.toDigits b n)).all (isDigit b) ∧ digitsValue b (utf8 (Nat.toDigits b n)) = n :=
    utf8_toDigitsCore hb hb10 (n + 1) n (Nat.lt_succ_self n)
  have hsp : ∀ c ∈ utf8 (Nat.toDigits b n), (c != 32) = true := by
    intro c hc
    have := List.all_eq_true.1 hall c hc
    simp only [isDigit, Bool.and_eq_true, decide_eq_true_eq] at this
    simp only [bne_iff_ne, ne_eq]
    rintro rfl
    exact absurd this.1 (by decide)
  have htw : (utf8 (fmtLeft w (Nat.toDigits b n))).takeWhile (· != 32) = utf8 (Nat.toDigits b n) := by
    rw [fmtLeft, utf8_append, List.takeWhile_append_of_pos hsp, utf8_replicate_space,
      List.takeWhile_replicate]
    simp
  have hdrop : ((utf8 (fmtLeft w (Nat.toDigits b n))).drop
      (utf8 (Nat.toDigits b n)).length).all (· == 32) = true := by
    simp only [fmtLeft, utf8_append, List.drop_left, utf8_replicate_space]
    simp
  simp only [parseNumber, htw]
  rw [if_pos ⟨hne, hall, hdrop⟩, hval]

@[simp] theorem parseNumber_decimal (w n : Nat) :
    parseNumber 10 (utf8 (fmtLeft w (decimal n))) = some n :=
  parseNumber_fmtLeft (by norm_num) le_rfl w n

example : parseNumber 10 (utf8 "42   ".data) = some 42 := rfl

@[simp] theorem parseNumber_octal (w n : Nat) :
    parseNumber 8 (utf8 (fmtLeft w (octal n))) = some n :=
  parseNumber_fmtLeft (by norm_num) (by norm_num) w n

/-! ## Bytes of UTF-8 text -/

theorem le_toNat_or {x y : UInt8} (hy : y.toNat.testBit 7 = true) : 128 ≤ (x ||| y).toNat := by
  have h7 : (x.toNat ||| y.toNat).testBit 7 = true := by rw [Nat.testBit_or, hy, Bool.or_true]
  have : (x ||| y).toNat = x.toNat ||| y.toNat := BitVec.toNat_or _ _
  rw [this]
  exact Nat.testBit_implies_ge h7

theorem toNat_eq_of_mem_utf8EncodeChar {c : Char} {b : UInt8} (hb : b ∈ String.utf8EncodeChar c)
    (hlt : b.toNat < 128) : c.toNat = b.toNat := by
  unfold String.utf8EncodeChar at hb
  dsimp only at hb
  split at hb
  · rename_i h
    rw [List.mem_singleton.1 hb]
    have h' : c.val.toNat ≤ 127 := h
    show c.val.toNat = (c.val.toNat.toUInt8).toNat
    rw [toNat_toUInt8_of_lt (by omega)]
  · exfalso
    split at hb
    · simp only [List.mem_cons, List.mem_singleton, List.not_mem_nil, or_false] at hb
      rcases hb with rfl | rfl <;> exact absurd hlt (Nat.not_lt.2 (le_toNat_or (by decide)))
    · split at hb
      · simp only [List.mem_cons, List.mem_singleton, List.not_mem_nil, or_false] at hb
        rcases hb with rfl | rfl | rfl <;>
          exact absurd hlt (Nat.not_lt.2 (le_toNat_or (by decide)))
      · simp only [List.mem_cons, List.mem_singleton, List.not_mem_nil, or_false] at hb
        rcases hb with rfl | rfl | rfl | rfl <;>
          exact absurd hlt (Nat.not_lt.2 (le_toNat_or (by decide)))

theorem not_mem_utf8 {s : List Char} {c : Char} (hc : c ∉ s) (hlt : c.toNat < 128) :
    c.toNat.toUInt8 ∉ utf8 s := by
  intro hb
  obtain ⟨d, hd, hb⟩ := List.mem_flatMap.1 hb
  have hb' := toNat_eq_of_mem_utf8EncodeChar hb (by rw [toNat_toUInt8_of_lt (by omega)]; exact hlt)
  rw [toNat_toUInt8_of_lt (by omega)] at hb'
  exact hc (by rw [← Char.ofNat_toNat c, ← hb', Char.ofNat_toNat]; exact hd)

theorem toNat_lt_of_utf8Size_eq_one {c : Char} (h : c.utf8Size = 1) : c.toNat < 128 := by
  simp only [Char.utf8Size] at h
  split at h
  · show c.val.toNat < 128
    have : c.val.toNat ≤ 127 := ‹c.val ≤ 127›
    omega
  · split at h <;> (try split at h) <;> simp at h

theorem utf8_of_ascii {s : List Char} (h : Ascii s) : utf8 s = s.map (·.toNat.toUInt8) := by
  induction s with
  | nil => rfl
  | cons c s ih =>
    have hc : c.val.toNat ≤ 127 := by
      have := toNat_lt_of_utf8Size_eq_one (h c (List.mem_cons_self ..))
      exact Nat.le_of_lt_succ this
    rw [utf8_cons, ih fun d hd => h d (List.mem_cons_of_mem _ hd)]
    simp [String.utf8EncodeChar, show c.val ≤ 127 from hc, Char.toNat]
    rfl

theorem utf8_inj_of_ascii {s t : List Char} (ht : Ascii t) (h : utf8 s = utf8 t) : s = t := by
  induction t generalizing s with
  | nil =>
    cases s with
    | nil => rfl
    | cons d s =>
      have := congrArg List.length h
      simp only [utf8_cons, List.length_append, String.length_utf8EncodeChar, utf8_nil,
        List.length_nil] at this
      have := d.utf8Size_pos
      omega
  | cons c t ih =>
    have hc := toNat_lt_of_utf8Size_eq_one (ht c (List.mem_cons_self ..))
    have hbyte : String.utf8EncodeChar c = [c.toNat.toUInt8] := by
      simpa using @utf8_of_ascii [c] fun d hd => by
        rw [List.mem_singleton.1 hd]; exact ht c (List.mem_cons_self ..)
    cases s with
    | nil => simp [hbyte] at h
    | cons d s =>
      obtain ⟨e, es, he⟩ := List.exists_cons_of_ne_nil (List.ne_nil_of_length_pos
        (by simpa using d.utf8Size_pos : 0 < (String.utf8EncodeChar d).length))
      rw [utf8_cons, utf8_cons, he, hbyte, List.cons_append, List.cons_append,
        List.cons.injEq] at h
      have hec : e.toNat = c.toNat := by rw [h.1, toNat_toUInt8_of_lt (by omega)]
      have hd : d = c := by
        have := toNat_eq_of_mem_utf8EncodeChar (he ▸ List.mem_cons_self e es) (by omega)
        rw [← Char.ofNat_toNat d, this, hec, Char.ofNat_toNat]
      subst hd
      rw [hbyte, List.cons.injEq] at he
      rw [← he.2, List.nil_append] at h
      rw [ih (fun d hd => ht d (List.mem_cons_of_mem _ hd)) h.2]

/-! ## Header fields -/

structure HeaderFields where
  name : List UInt8
  mtime : List UInt8
  uid : List UInt8
  gid : List UInt8
  mode : List UInt8
  size : List UInt8

/-- Cut a header off `bytes`: the fields at their fixed widths, then the backquote and
newline that end every header. -/
def splitHeader (bytes : List UInt8) : Option (HeaderFields × List UInt8) :=
  let name := bytes.take 16
  let r := bytes.drop 16
  let mtime := r.take 12
  let r := r.drop 12
  let uid := r.take 6
  let r := r.drop 6
  let gid := r.take 6
  let r := r.drop 6
  let mode := r.take 8
  let r := r.drop 8
  let size := r.take 10
  let r := r.drop 10
  if r.take 2 = [96, 10] then some (⟨name, mtime, uid, gid, mode, size⟩, r.drop 2) else none

theorem splitHeader_append {name mtime uid gid mode size : List UInt8} (h₁ : name.length = 16)
    (h₂ : mtime.length = 12) (h₃ : uid.length = 6) (h₄ : gid.length = 6) (h₅ : mode.length = 8)
    (h₆ : size.length = 10) (rest : List UInt8) :
    splitHeader (name ++ mtime ++ uid ++ gid ++ mode ++ size ++ [96, 10] ++ rest) =
      some (⟨name, mtime, uid, gid, mode, size⟩, rest) := by
  simp only [splitHeader, List.append_assoc, List.take_left' h₁, List.drop_left' h₁,
    List.take_left' h₂, List.drop_left' h₂, List.take_left' h₃, List.drop_left' h₃,
    List.take_left' h₄, List.drop_left' h₄, List.take_left' h₅, List.drop_left' h₅,
    List.take_left' h₆, List.drop_left' h₆]
  rfl

theorem length_utf8_fmtLeft_decimal {w n : Nat} (h : n < 10 ^ w) (hw : 0 < w) :
    (utf8 (fmtLeft w (decimal n))).length = w := by
  rw [length_utf8_fmtLeft (decimal_ascii n), max_eq_left (length_decimal_le h hw)]

def printedFields (field : List UInt8) (mtime uid gid perms size : Nat) : HeaderFields :=
  ⟨field, utf8 (fmtLeft 12 (decimal mtime)), utf8 (fmtLeft 6 (decimal (uid % 1000000))),
    utf8 (fmtLeft 6 (decimal (gid % 1000000))), utf8 (fmtLeft 8 (octal perms)),
    utf8 (fmtLeft 10 (decimal size))⟩

@[simp] theorem printedFields_name (field : List UInt8) (mtime uid gid perms size : Nat) :
    (printedFields field mtime uid gid perms size).name = field := rfl

@[simp] theorem printedFields_size (field : List UInt8) (mtime uid gid perms size : Nat) :
    (printedFields field mtime uid gid perms size).size = utf8 (fmtLeft 10 (decimal size)) := rfl

theorem splitHeader_printRest {field : List UInt8} (hf : field.length = 16) {mtime perms size : Nat}
    (hm : mtime < 10 ^ 12) (hp : perms < 8 ^ 8) (hs : size < 10 ^ 10) (uid gid : Nat)
    (rest : List UInt8) :
    splitHeader (field ++ printRestOfMemberHeader mtime uid gid perms size ++ rest) =
      some (printedFields field mtime uid gid perms size, rest) := by
  have hq : utf8 "`\n".data = [96, 10] := rfl
  have hmode : (utf8 (fmtLeft 8 (octal perms))).length = 8 := by
    rw [length_utf8_fmtLeft (octal_ascii perms), max_eq_left (length_octal_le hp (by norm_num))]
  simp only [printRestOfMemberHeader, utf8_append, hq, ← List.append_assoc]
  exact splitHeader_append hf (length_utf8_fmtLeft_decimal hm (by norm_num))
    (length_utf8_fmtLeft_decimal (Nat.mod_lt _ (by norm_num)) (by norm_num))
    (length_utf8_fmtLeft_decimal (Nat.mod_lt _ (by norm_num)) (by norm_num)) hmode
    (length_utf8_fmtLeft_decimal hs (by norm_num)) rest

/-! ## Names -/

inductive NameField where
  | bsd (len : Nat)  -- `#1/L`: the `L` bytes after the header
  | symbolTable  -- `/` or `/SYM64/`
  | stringTable  -- `//`
  | long (offset : Nat)  -- `/K`: at offset `K` of the string table
  | short (name : List UInt8)  -- `N/`: written in the field
  deriving DecidableEq, Repr

/-- The record kind a name field announces. -/
def nameField : List UInt8 → NameField
  | 35 :: 49 :: 47 :: rest =>
    match parseNumber 10 rest with
    | some len => .bsd len
    | none => .short [35, 49]
  | 47 :: rest =>
    if rest = List.replicate 15 32 ∨ rest = utf8 "SYM64/".data ++ List.replicate 9 32 then
      .symbolTable
    else if rest = 47 :: List.replicate 14 32 then .stringTable
    else match parseNumber 10 rest with
      | some offset => .long offset
      | none => .short []
  | field => .short (field.takeWhile (· != 47))

def stripNuls (bytes : List UInt8) : List UInt8 := (bytes.reverse.dropWhile (· == 0)).reverse

/-- A GNU long name: the string table from its offset up to the next `/\n`. -/
def untilSlashNewline : List UInt8 → List UInt8
  | [] => []
  | 47 :: 10 :: _ => []
  | b :: bs => b :: untilSlashNewline bs

theorem parseNumber_spaces (k : Nat) : parseNumber 10 (List.replicate k 32) = none := by
  simp [parseNumber, List.takeWhile_replicate]

theorem utf8_fmtLeft_decimal_cons (w n : Nat) :
    ∃ d t, utf8 (fmtLeft w (decimal n)) = d :: t ∧ (48 ≤ d.toNat ∧ d.toNat < 58) := by
  obtain ⟨hne, hall, -⟩ := utf8_toDigitsCore (b := 10) (by norm_num) le_rfl (n + 1) n
    (Nat.lt_succ_self n)
  obtain ⟨d, t, ht⟩ := List.exists_cons_of_ne_nil hne
  have hd := List.all_eq_true.1 hall d (by rw [ht]; exact List.mem_cons_self ..)
  simp only [isDigit, Bool.and_eq_true, decide_eq_true_eq] at hd
  refine ⟨d, t ++ utf8 (List.replicate (w - (decimal n).length) ' '), ?_, hd⟩
  rw [fmtLeft, utf8_append]
  exact congrArg (· ++ _) ht

theorem nameField_bsd (len : Nat) :
    nameField (35 :: 49 :: 47 :: utf8 (fmtLeft 13 (decimal len))) = .bsd len := by
  simp only [nameField, parseNumber_decimal]

theorem nameField_long (offset : Nat) :
    nameField (utf8 ('/' :: fmtLeft 15 (decimal offset))) = .long offset := by
  obtain ⟨d, t, ht, hd⟩ := utf8_fmtLeft_decimal_cons 15 offset
  have hhead : ∀ {b t'}, utf8 (fmtLeft 15 (decimal offset)) = b :: t' →
      48 ≤ b.toNat ∧ b.toNat < 58 := by
    intro b t' h
    rw [ht, List.cons.injEq] at h
    rw [← h.1]
    exact hd
  rw [utf8_cons, show String.utf8EncodeChar '/' = [47] from rfl, List.singleton_append]
  simp only [nameField]
  rw [if_neg fun h => h.elim (fun h => absurd (hhead h) (by decide))
      (fun h => absurd (hhead h) (by decide)),
    if_neg fun h => absurd (hhead h) (by decide), parseNumber_decimal]

theorem nameField_short {name : List UInt8} (hne : name ≠ []) (h47 : 47 ∉ name) (k : Nat) :
    nameField (name ++ 47 :: List.replicate k 32) = .short name := by
  have htw : (name ++ 47 :: List.replicate k 32).takeWhile (· != 47) = name := by
    rw [List.takeWhile_append_of_pos fun a ha => bne_iff_ne.2 fun (h : a = 47) => h47 (h ▸ ha),
      List.takeWhile_cons_of_neg (by simp), List.append_nil]
  unfold nameField
  split
  · rename_i rest heq
    have hname : name = [35, 49] := by rw [← htw, heq]; rfl
    subst hname
    simp only [List.cons_append, List.nil_append, List.cons.injEq, true_and] at heq
    rw [← heq, parseNumber_spaces]
  · rename_i rest heq
    exact absurd (by rw [← htw, heq]; rfl) hne
  · exact congrArg _ htw

theorem untilSlashNewline_append {name : List UInt8} (h10 : 10 ∉ name) (rest : List UInt8) :
    untilSlashNewline (name ++ 47 :: 10 :: rest) = name := by
  induction name with
  | nil => rfl
  | cons b bs ih =>
    have hb : b ≠ 10 := fun h => h10 (h ▸ List.mem_cons_self ..)
    have hbs : 10 ∉ bs := fun h => h10 (List.mem_cons_of_mem _ h)
    rw [List.cons_append, untilSlashNewline.eq_3, ih hbs]
    rintro t rfl ht
    cases bs with
    | nil => simp at ht
    | cons c cs =>
      simp only [List.cons_append, List.cons.injEq] at ht
      exact hbs (ht.1 ▸ List.mem_cons_self ..)

theorem stripNuls_append {name : List UInt8} (h0 : 0 ∉ name) (k : Nat) :
    stripNuls (name ++ List.replicate k 0) = name := by
  have h0' : ∀ c ∈ name.reverse, c ≠ 0 := fun c hc h => h0 (h ▸ List.mem_reverse.1 hc)
  unfold stripNuls
  rw [List.reverse_append, List.reverse_replicate, List.dropWhile_append_of_pos (by simp)]
  cases hr : name.reverse with
  | nil => simp_all
  | cons c cs =>
    rw [List.dropWhile_cons_of_neg (by simpa using h0' c (by rw [hr]; exact List.mem_cons_self ..)),
      ← hr, List.reverse_reverse]

theorem utf8_inlineField {name : String} (ha : Ascii name.data) (hn : byteLen name < 16) :
    utf8 (fmtLeft 16 (name.data ++ ['/'])) =
      utf8 name.data ++ 47 :: List.replicate (15 - byteLen name) 32 := by
  have hl : byteLen name = name.data.length := length_utf8_of_ascii ha
  rw [fmtLeft, utf8_append, utf8_append, utf8_replicate_space, List.length_append,
    List.length_singleton, show 16 - (name.data.length + 1) = 15 - byteLen name by omega]
  simp only [List.append_assoc]
  rfl

theorem length_inlineField {name : String} (ha : Ascii name.data) (hn : byteLen name < 16) :
    (utf8 (fmtLeft 16 (name.data ++ ['/']))).length = 16 := by
  rw [utf8_inlineField ha hn, List.length_append, List.length_cons, List.length_replicate]
  unfold byteLen at hn ⊢
  omega

theorem length_longField {offset : Nat} (ho : offset < 10 ^ 15) :
    (utf8 ('/' :: fmtLeft 15 (decimal offset))).length = 16 := by
  rw [utf8_cons, List.length_append, length_utf8_fmtLeft_decimal ho (by norm_num)]
  rfl

theorem untilSlashNewline_drop_recordOffset {recs : List String} {j : Nat} {name : String}
    (hj : recs[j]? = some name) (h10 : 10 ∉ utf8 name.data) (extra : List UInt8) :
    untilSlashNewline ((recs.flatMap stringTableEntry ++ extra).drop (recordOffset recs j)) =
      utf8 name.data := by
  obtain ⟨hlt, heq⟩ := List.getElem?_eq_some_iff.1 hj
  have htable : recs.flatMap stringTableEntry = (recs.take j).flatMap stringTableEntry ++
      (stringTableEntry name ++ (recs.drop (j + 1)).flatMap stringTableEntry) := by
    conv_lhs => rw [← List.take_append_drop j recs, List.drop_eq_getElem_cons hlt, heq]
    rw [List.flatMap_append, List.flatMap_cons]
  rw [recordOffset, htable, List.append_assoc, List.drop_left, stringTableEntry, utf8_append,
    List.append_assoc, List.append_assoc]
  exact untilSlashNewline_append h10 _

/-! ## Records -/

structure ReadMember where
  name : List UInt8
  mtime : Nat
  uid : Nat
  gid : Nat
  perms : Nat
  data : List UInt8
  deriving DecidableEq, Repr

inductive Record where
  | symbolTable
  | stringTable (table : List UInt8)
  | member (m : ReadMember)
  deriving DecidableEq, Repr

def headerMember (h : HeaderFields) (name data : List UInt8) : Option ReadMember := do
  let mtime ← parseNumber 10 h.mtime
  let uid ← parseNumber 10 h.uid
  let gid ← parseNumber 10 h.gid
  let perms ← parseNumber 8 h.mode
  return ⟨name, mtime, uid, gid, perms, data⟩

/-- The bytes a record takes from offset `pos`: its sixty-byte header, `size` bytes, and a
pad byte when these end at an odd offset. -/
def recordSpan (pos size : Nat) : Nat := 60 + size + (pos + 60 + size) % 2

def bsdSymbolTableNames : List (List UInt8) := [utf8 "__.SYMDEF".data, utf8 "__.SYMDEF_64".data]

def readGnuMember (thin : Bool) (pos size : Nat) (h : HeaderFields) (name body : List UInt8) :
    Option (Record × Nat) :=
  if thin then (fun m => (.member m, recordSpan pos 0)) <$> headerMember h name []
  else if size ≤ body.length then
    (fun m => (.member m, recordSpan pos size)) <$> headerMember h name (body.take size)
  else none

/-- The record at offset `pos`, read with the string table found so far: what it is, and how
many bytes it takes. -/
def readRecord (thin : Bool) (strtab : List UInt8) (pos : Nat) (bytes : List UInt8) :
    Option (Record × Nat) := do
  let (h, body) ← splitHeader bytes
  let size ← parseNumber 10 h.size
  match nameField h.name with
  | .bsd len =>
    if len ≤ size ∧ size ≤ body.length then
      let name := stripNuls (body.take len)
      if name ∈ bsdSymbolTableNames then some (.symbolTable, recordSpan pos size)
      else (fun m => (.member m, recordSpan pos size)) <$>
        headerMember h name ((body.drop len).take (size - len))
    else none
  | .symbolTable => if size ≤ body.length then some (.symbolTable, recordSpan pos size) else none
  | .stringTable =>
    if size ≤ body.length then some (.stringTable (body.take size), recordSpan pos size) else none
  | .long offset => readGnuMember thin pos size h (untilSlashNewline (strtab.drop offset)) body
  | .short name => readGnuMember thin pos size h name body

/-- The members of the records from offset `pos` on; `fuel` bounds the number of records. -/
def readRecords (thin : Bool) : Nat → List UInt8 → Nat → List UInt8 → Option (List ReadMember)
  | _, _, _, [] => some []
  | 0, _, _, _ :: _ => none
  | fuel + 1, strtab, pos, b :: bs => do
    let (r, n) ← readRecord thin strtab pos (b :: bs)
    match r with
    | .symbolTable => readRecords thin fuel strtab (pos + n) ((b :: bs).drop n)
    | .stringTable table => readRecords thin fuel table (pos + n) ((b :: bs).drop n)
    | .member m => (m :: ·) <$> readRecords thin fuel strtab (pos + n) ((b :: bs).drop n)

/-- The members of an archive: after the magic, its records from offset 8 on. -/
def readArchive (out : List UInt8) : Option (List ReadMember) :=
  if out.take 8 = archiveMagic false then readRecords false out.length [] 8 (out.drop 8)
  else if out.take 8 = archiveMagic true then readRecords true out.length [] 8 (out.drop 8)
  else none

theorem readRecords_symbolTable {thin : Bool} {fuel : Nat} {strtab : List UInt8} {pos : Nat}
    {R rest : List UInt8} (hR : R ≠ [])
    (h : readRecord thin strtab pos (R ++ rest) = some (.symbolTable, R.length)) :
    readRecords thin (fuel + 1) strtab pos (R ++ rest) =
      readRecords thin fuel strtab (pos + R.length) rest := by
  obtain ⟨b, bs, hb⟩ := List.exists_cons_of_ne_nil (List.append_ne_nil_of_left_ne_nil hR rest)
  rw [hb] at h
  rw [hb, readRecords, h, ← hb]
  exact congrArg _ (List.drop_left R rest)

theorem readRecords_stringTable {thin : Bool} {fuel : Nat} {strtab table : List UInt8}
    {pos : Nat} {R rest : List UInt8} (hR : R ≠ [])
    (h : readRecord thin strtab pos (R ++ rest) = some (.stringTable table, R.length)) :
    readRecords thin (fuel + 1) strtab pos (R ++ rest) =
      readRecords thin fuel table (pos + R.length) rest := by
  obtain ⟨b, bs, hb⟩ := List.exists_cons_of_ne_nil (List.append_ne_nil_of_left_ne_nil hR rest)
  rw [hb] at h
  rw [hb, readRecords, h, ← hb]
  exact congrArg _ (List.drop_left R rest)

theorem readRecords_member {thin : Bool} {fuel : Nat} {strtab : List UInt8} {pos : Nat}
    {R rest : List UInt8} {m : ReadMember} (hR : R ≠ [])
    (h : readRecord thin strtab pos (R ++ rest) = some (.member m, R.length)) :
    readRecords thin (fuel + 1) strtab pos (R ++ rest) =
      (m :: ·) <$> readRecords thin fuel strtab (pos + R.length) rest := by
  obtain ⟨b, bs, hb⟩ := List.exists_cons_of_ne_nil (List.append_ne_nil_of_left_ne_nil hR rest)
  rw [hb] at h
  rw [hb, readRecords, h, ← hb]
  exact congrArg (fun bytes => (m :: ·) <$> readRecords thin fuel strtab (pos + R.length) bytes)
    (List.drop_left R rest)

/-! ## Reading what the writer writes -/

theorem headerMember_printedFields (field : List UInt8) (mtime uid gid perms size : Nat)
    (name data : List UInt8) :
    headerMember (printedFields field mtime uid gid perms size) name data =
      some ⟨name, mtime, uid % 1000000, gid % 1000000, perms, data⟩ := by
  simp [headerMember, printedFields]

/-- A GNU member record: a name field, the other fields, the payload, and a newline when the
payload's length is odd. -/
theorem readRecord_gnuMember {thin : Bool} {strtab : List UInt8} {pos : Nat} (hpos : pos % 2 = 0)
    {field name : List UInt8} (hf : field.length = 16)
    (hname : nameField field = .short name ∨
      ∃ offset, nameField field = .long offset ∧ untilSlashNewline (strtab.drop offset) = name)
    {mtime perms : Nat} (hm : mtime < 10 ^ 12) (hp : perms < 8 ^ 8) {data : List UInt8}
    (hs : data.length < 10 ^ 10) (hthin : thin = true → data = []) (uid gid : Nat)
    (rest : List UInt8) :
    readRecord thin strtab pos (field ++ printRestOfMemberHeader mtime uid gid perms data.length ++
        (data ++ List.replicate (offsetToAlignment data.length 2) 10 ++ rest)) =
      some (.member ⟨name, mtime, uid % 1000000, gid % 1000000, perms, data⟩,
        60 + data.length + offsetToAlignment data.length 2) := by
  have hspan : recordSpan pos data.length = 60 + data.length + offsetToAlignment data.length 2 := by
    unfold recordSpan offsetToAlignment
    omega
  have hgnu : readGnuMember thin pos data.length
      (printedFields field mtime uid gid perms data.length) name
      (data ++ List.replicate (offsetToAlignment data.length 2) 10 ++ rest) =
      some (.member ⟨name, mtime, uid % 1000000, gid % 1000000, perms, data⟩,
        60 + data.length + offsetToAlignment data.length 2) := by
    unfold readGnuMember
    cases thin
    · simp only [Bool.false_eq_true, if_false, List.append_assoc, List.length_append]
      rw [if_pos (by omega), List.take_left' rfl, headerMember_printedFields, ← hspan]
      rfl
    · obtain rfl := hthin rfl
      have h0 : recordSpan pos 0 = 60 + ([] : List UInt8).length +
          offsetToAlignment ([] : List UInt8).length 2 := by
        unfold recordSpan offsetToAlignment
        simp only [List.length_nil]
        omega
      simp only [if_true, headerMember_printedFields, h0]
      rfl
  simp only [readRecord, splitHeader_printRest hf hm hp hs, Option.bind_eq_bind, Option.some_bind,
    printedFields_size, printedFields_name, parseNumber_decimal]
  rcases hname with h | ⟨offset, h, hu⟩
  · rw [h]; exact hgnu
  · rw [h]; simp only [hu]; exact hgnu

theorem printBsdMemberHeader_eq (pos : Nat) (name : String) (mtime uid gid perms size : Nat) :
    printBsdMemberHeader pos name mtime uid gid perms size =
      35 :: 49 :: 47 :: utf8 (fmtLeft 13 (decimal (byteLen name +
          offsetToAlignment (pos + 60 + byteLen name) 8))) ++
        printRestOfMemberHeader mtime uid gid perms
          (byteLen name + offsetToAlignment (pos + 60 + byteLen name) 8 + size) ++
        (utf8 name.data ++ List.replicate (offsetToAlignment (pos + 60 + byteLen name) 8) 0) := by
  simp only [printBsdMemberHeader, utf8_append, List.append_assoc]
  rfl

/-- A BSD record: the header with its name and padding, the bytes its size counts, and a
tail of `tail` bytes when those end at an odd offset. Its name tells a symbol table from a
member. -/
theorem readRecord_bsd {thin : Bool} {strtab : List UInt8} {pos pos' : Nat} {name : String}
    (h0 : 0 ∉ utf8 name.data) {mtime perms : Nat} (hm : mtime < 10 ^ 12) (hp : perms < 8 ^ 8)
    {data tail : List UInt8}
    (hs : byteLen name + offsetToAlignment (pos' + 60 + byteLen name) 8 + data.length < 10 ^ 10)
    (hpar : (pos + 60 + byteLen name + offsetToAlignment (pos' + 60 + byteLen name) 8 +
      data.length) % 2 = tail.length) (uid gid : Nat) (rest : List UInt8) :
    readRecord thin strtab pos
        (printBsdMemberHeader pos' name mtime uid gid perms data.length ++ (data ++ tail ++ rest)) =
      some (if utf8 name.data ∈ bsdSymbolTableNames then .symbolTable
        else .member ⟨utf8 name.data, mtime, uid % 1000000, gid % 1000000, perms, data⟩,
        (printBsdMemberHeader pos' name mtime uid gid perms data.length).length + data.length +
          tail.length) := by
  rw [printBsdMemberHeader_eq]
  generalize offsetToAlignment (pos' + 60 + byteLen name) 8 = pad at hs hpar ⊢
  have h13 : (decimal (byteLen name + pad)).length ≤ 13 :=
    length_decimal_le (by omega) (by norm_num)
  have hf : (35 :: 49 :: 47 :: utf8 (fmtLeft 13 (decimal (byteLen name + pad)))).length = 16 := by
    rw [List.length_cons, List.length_cons, List.length_cons, length_utf8_fmtLeft (decimal_ascii _)]
    omega
  have hname : (utf8 name.data ++ List.replicate pad 0).length = byteLen name + pad := by
    simp [byteLen]
  unfold readRecord
  rw [List.append_assoc (_ ++ printRestOfMemberHeader _ _ _ _ _),
    splitHeader_printRest hf hm hp hs]
  simp only [Option.bind_eq_bind, Option.some_bind, printedFields_size,
    printedFields_name, parseNumber_decimal, nameField_bsd]
  have hlen : (utf8 name.data ++ List.replicate pad 0 ++ (data ++ tail ++ rest)).length =
      byteLen name + pad + (data ++ tail ++ rest).length := by
    rw [List.length_append, hname]
  have hspan : recordSpan pos (byteLen name + pad + data.length) =
      (35 :: 49 :: 47 :: utf8 (fmtLeft 13 (decimal (byteLen name + pad))) ++
        printRestOfMemberHeader mtime uid gid perms (byteLen name + pad + data.length) ++
        (utf8 name.data ++ List.replicate pad 0)).length + data.length + tail.length := by
    rw [List.length_append, List.length_append, hf, hname,
      length_printRestOfMemberHeader_of_lt hm hp hs, recordSpan, ← hpar]
    omega
  rw [if_pos ⟨by omega, by rw [hlen, List.length_append, List.length_append]; omega⟩,
    List.take_left' hname, stripNuls_append h0, List.drop_left' hname, Nat.add_sub_cancel_left,
    List.append_assoc, List.take_left' rfl, hspan]
  split
  · rfl
  · rw [headerMember_printedFields]
    rfl

theorem readRecord_stringTable {thin : Bool} {strtab : List UInt8} {pos : Nat}
    (hpos : pos % 2 = 0) {names : List UInt8} (hn : names.length < 10 ^ 10 - 1)
    (rest : List UInt8) :
    readRecord thin strtab pos ((computeStringTable names).record ++ rest) =
      some (.stringTable ((computeStringTable names).data ++ (computeStringTable names).padding),
        (computeStringTable names).record.length) := by
  have h48 : utf8 (fmtLeft 48 "//".data) = utf8 (fmtLeft 16 "//".data) ++ List.replicate 12 32 ++
      List.replicate 6 32 ++ List.replicate 6 32 ++ List.replicate 8 32 := rfl
  have hq : utf8 "`\n".data = [96, 10] := rfl
  have hpad : offsetToAlignment names.length 2 < 2 := Nat.mod_lt _ (by norm_num)
  have hpadding : (if offsetToAlignment names.length 2 ≠ 0 then [(10 : UInt8)] else []).length =
      offsetToAlignment names.length 2 := by
    split
    · simp only [List.length_singleton]; omega
    · simp only [List.length_nil]; omega
  have hs := length_utf8_fmtLeft_decimal
    (show names.length + offsetToAlignment names.length 2 < 10 ^ 10 by omega) (by norm_num)
  have hrec := length_computeStringTable_record hn
  have hbytes : (computeStringTable names).record ++ rest =
      utf8 (fmtLeft 16 ['/', '/']) ++ List.replicate 12 32 ++ List.replicate 6 32 ++
        List.replicate 6 32 ++ List.replicate 8 32 ++
        utf8 (fmtLeft 10 (decimal (names.length + offsetToAlignment names.length 2))) ++ [96, 10] ++
        ((computeStringTable names).data ++ (computeStringTable names).padding ++ rest) := by
    simp only [computeStringTable, MemberData.record, utf8_append, h48, hq, List.append_assoc]
  have hfield : nameField (utf8 (fmtLeft 16 ['/', '/'])) = .stringTable := rfl
  have hdata : ((computeStringTable names).data ++ (computeStringTable names).padding).length =
      names.length + offsetToAlignment names.length 2 := by
    simp only [computeStringTable, List.length_append, hpadding]
  unfold readRecord
  rw [hbytes, splitHeader_append (show (utf8 (fmtLeft 16 ['/', '/'])).length = 16 from rfl)
    (List.length_replicate 12 32) (List.length_replicate 6 32) (List.length_replicate 6 32)
    (List.length_replicate 8 32) hs]
  simp only [Option.bind_eq_bind, Option.some_bind, parseNumber_decimal, hfield]
  have hspan : recordSpan pos (names.length + offsetToAlignment names.length 2) =
      60 + names.length + offsetToAlignment names.length 2 := by
    unfold recordSpan offsetToAlignment
    omega
  rw [if_pos (by rw [List.length_append, hdata]; omega), List.take_left' hdata, hrec, hspan]

theorem readRecord_symbolTable {kind : ArchiveKind} (hk : kind.Writable) {numSyms : Nat}
    {names : List UInt8} {size pad : Nat}
    (hsize : computeSymbolTableSizeAndPad kind numSyms (offsetSizeOf kind) names = .ok (size, pad))
    (hlt : (symbolTableHeader kind 8 size).length + size < 10 ^ 10 + 60) {body : List UInt8}
    (hbody : body.length = size) (thin : Bool) (strtab rest : List UInt8) :
    readRecord thin strtab 8 (symbolTableHeader kind 8 size ++ (body ++ rest)) =
      some (.symbolTable, (symbolTableHeader kind 8 size).length + size) := by
  have hmod := computeSymbolTableSizeAndPad_mod hk (by unfold offsetSizeOf; split <;> simp) hsize
  unfold symbolTableHeader at hlt ⊢
  cases hb : kind.bsd
  · simp only [hb, Bool.false_eq_true, if_false] at hmod hlt ⊢
    have hname : nameField (utf8 (fmtLeft 16 ((symbolTableName kind).data ++ ['/']))) =
        .symbolTable ∧ (utf8 (fmtLeft 16 ((symbolTableName kind).data ++ ['/']))).length = 16 := by
      unfold symbolTableName
      simp only [hb, Bool.false_eq_true, if_false]
      split <;> exact ⟨rfl, rfl⟩
    have h60 := length_printGnuSmallMemberHeader_ge (symbolTableName kind) 0 0 0 0 size
    have hs : size < 10 ^ 10 := by omega
    unfold printGnuSmallMemberHeader at hlt ⊢
    unfold readRecord
    rw [splitHeader_printRest hname.2 (by norm_num) (by norm_num) hs]
    simp only [Option.bind_eq_bind, Option.some_bind, printedFields_size, printedFields_name,
      parseNumber_decimal, hname.1]
    have hspan : recordSpan 8 size = 16 + 44 + size := by
      unfold recordSpan
      omega
    rw [if_pos (by simp [hbody]), List.length_append, hname.2,
      length_printRestOfMemberHeader_of_lt (by norm_num) (by norm_num) hs, hspan]
  · simp only [hb, if_true] at hmod hlt ⊢
    have hname : 0 ∉ utf8 (symbolTableName kind).data ∧
        utf8 (symbolTableName kind).data ∈ bsdSymbolTableNames := by
      unfold symbolTableName
      simp only [hb, if_true]
      split <;> decide
    have hge := length_printBsdMemberHeader_ge 8 (symbolTableName kind) 0 0 0 0 size
    have hlen := @length_printBsdMemberHeader_of_lt 8 (symbolTableName kind) 0 0 size
      (by norm_num) (by norm_num) (by omega) 0 0
    have h8 := add_offsetToAlignment_mod (by norm_num : 0 < 8) (8 + 60 + byteLen (symbolTableName kind))
    subst hbody
    have := @readRecord_bsd thin strtab 8 8 (symbolTableName kind) hname.1 0 0 (by norm_num)
      (by norm_num) body [] (by omega) (by simp only [List.length_nil]; omega) 0 0 rest
    simpa [hname.2] using this

end ArchiveWriter
