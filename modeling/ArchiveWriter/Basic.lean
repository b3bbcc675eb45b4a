import Mathlib.Data.Nat.Digits

/-!
# Archive kinds, members and the text of a header

The data `archive_writer.rs` works on: the requested format, the input members, the
symbols the object parser hands back, and the way `write!` turns numbers and names into
header bytes (`{:<w}` pads with spaces to `w` characters, `{}` and `{:o}` print decimal
and octal digits, and the text goes out as UTF-8).
-/

namespace ArchiveWriter

/-- Modelled from the spec: `crate::archive::ArchiveKind` is not in the source. Its
variants are those the code matches on and §3 lists. -/
inductive ArchiveKind
  | Gnu | Gnu64 | Bsd | Darwin | Darwin64 | Coff | AixBig
  deriving DecidableEq, Repr

/-- How a call stops early: a Rust panic (`assert!`, `panic!`, `todo!`, an `unwrap` or
`expect`, a slice index out of range) or an `io::Error` returned as `Err`. -/
inductive ArchiveError
  | panic (msg : String)
  | other (msg : String)
  deriving DecidableEq, Repr

open ArchiveKind

def isDarwin (kind : ArchiveKind) : Bool :=
  kind == Darwin || kind == Darwin64

def isBsdLike : ArchiveKind → Except ArchiveError Bool
  | Gnu | Gnu64 => .ok false
  | Bsd | Darwin | Darwin64 => .ok true
  | Coff | AixBig => .error (.panic "not supported for writing")

def is64BitKind : ArchiveKind → Bool
  | Gnu | Bsd | Darwin | Coff | AixBig => false
  | Darwin64 | Gnu64 => true

/-- The kinds the writer accepts, and the family each belongs to. -/
def ArchiveKind.Writable (kind : ArchiveKind) : Prop := kind ≠ Coff ∧ kind ≠ AixBig

instance (kind : ArchiveKind) : Decidable kind.Writable :=
  inferInstanceAs (Decidable (_ ∧ _))

/-- `is_bsd_like` as a total function on the writable kinds. -/
def ArchiveKind.bsd (kind : ArchiveKind) : Bool :=
  kind == Bsd || kind == Darwin || kind == Darwin64

theorem writable_of_bsd {kind : ArchiveKind} (hb : kind.bsd = true) : kind.Writable := by
  cases kind <;> simp_all [ArchiveKind.bsd] <;> decide

/-- Modelled from the spec: `crate::alignment::offset_to_alignment` is not in the
source. §2 calls it the padding that takes a position to a byte boundary. -/
def offsetToAlignment (value align : Nat) : Nat := (align - value % align) % align

theorem offsetToAlignment_add_self (value align : Nat) :
    offsetToAlignment (value + align) align = offsetToAlignment value align := by
  simp [offsetToAlignment]

theorem add_offsetToAlignment_mod {align : Nat} (h : 0 < align) (value : Nat) :
    (value + offsetToAlignment value align) % align = 0 := by
  unfold offsetToAlignment
  have := Nat.mod_lt value h
  rcases Nat.eq_zero_or_pos (value % align) with h0 | hpos
  · simp [h0, Nat.add_mod]
  · rw [Nat.mod_eq_of_lt (by omega : align - value % align < align), Nat.add_mod,
      Nat.mod_eq_of_lt (by omega : align - value % align < align),
      Nat.add_sub_cancel' this.le, Nat.mod_self]

/-- Modelled from the spec: `crate::archive::MAX_MEMBER_SIZE` is not in the source. §3
calls it the maximum representable member size, the largest value of the ten-digit size
field. -/
def maxMemberSize : Nat := 9999999999

structure NewArchiveMember where
  buf : List UInt8
  memberName : String
  mtime : UInt64
  uid : UInt32
  gid : UInt32
  perms : UInt32
  deriving DecidableEq, Repr

/-- What the writer reads of an `object::read::Symbol`; `nameBytes` is `none` where
`name_bytes()` returns `Err`. -/
structure ObjectSymbol where
  isGlobal : Bool
  isDefinition : Bool
  nameBytes : Option (List UInt8)
  deriving DecidableEq, Repr

/-- `object::File::parse(buf)` followed by `file.symbols()`; the object crate is not part
of this repository, so the parser is a parameter of the model. -/
abbrev ObjectParser := List UInt8 → Option (List ObjectSymbol)

/-! ## Header text -/

/-- `{:<w}`: left-justified and padded with spaces to `w` characters. -/
def fmtLeft (w : Nat) (s : List Char) : List Char :=
  s ++ List.replicate (w - s.length) ' '

/-- `{}` of an unsigned integer. -/
def decimal (n : Nat) : List Char := Nat.toDigits 10 n

/-- `{:o}`. -/
def octal (n : Nat) : List Char := Nat.toDigits 8 n

/-- The bytes `write!` emits for a text. -/
def utf8 (s : List Char) : List UInt8 := s.flatMap String.utf8EncodeChar

/-- `str::len`: the length of a name in bytes. -/
def byteLen (s : String) : Nat := (utf8 s.data).length

/-- The value `print_n_bits` puts out as `u32`/`u64::to_le_bytes`, `w` bytes long. -/
def leBytes (w val : Nat) : List UInt8 :=
  (List.range w).map fun i => (val / 256 ^ i % 256).toUInt8

/-- `to_be_bytes`: the same bytes, most significant first. -/
def beBytes (w val : Nat) : List UInt8 := (leBytes w val).reverse

/-- Peeling one step off a computation that may stop. -/
@[simp] theorem except_bind_eq_ok {ε α β : Type} {x : Except ε α} {f : α → Except ε β} {b : β} :
    x >>= f = .ok b ↔ ∃ a, x = .ok a ∧ f a = .ok b := by
  cases x <;> simp [bind, Except.bind]

theorem ok_bind {ε α β : Type} (a : α) (f : α → Except ε β) : (Except.ok a >>= f) = f a := rfl

/-- A step that cannot fail fails exactly when what it follows does. -/
theorem exists_bind_ok_iff {ε α β : Type} {x : Except ε α} {f : α → Except ε β}
    (hf : ∀ a, ∃ b, f a = .ok b) : (∃ r, (x >>= f) = .ok r) ↔ ∃ a, x = .ok a := by
  cases x with
  | error e => simp [bind, Except.bind]
  | ok a => exact ⟨fun _ => ⟨a, rfl⟩, fun _ => hf a⟩

/-! ## Lengths of header text -/

@[simp] theorem utf8_nil : utf8 [] = [] := rfl
@[simp] theorem utf8_cons (c : Char) (s : List Char) :
    utf8 (c :: s) = String.utf8EncodeChar c ++ utf8 s := rfl
@[simp] theorem utf8_append (s t : List Char) : utf8 (s ++ t) = utf8 s ++ utf8 t :=
  List.flatMap_append ..

theorem length_utf8 (s : List Char) : (utf8 s).length = (s.map Char.utf8Size).sum := by
  induction s with
  | nil => rfl
  | cons c s ih => simp [ih]

/-- A text every character of which is one UTF-8 byte. -/
def Ascii (s : List Char) : Prop := ∀ c ∈ s, c.utf8Size = 1

theorem length_utf8_of_ascii {s : List Char} (h : Ascii s) : (utf8 s).length = s.length := by
  induction s with
  | nil => rfl
  | cons c s ih =>
    simp only [utf8_cons, List.length_append, String.length_utf8EncodeChar, List.length_cons]
    rw [h c (List.mem_cons_self ..), ih fun d hd => h d (List.mem_cons_of_mem _ hd)]
    omega

theorem length_le_length_utf8 (s : List Char) : s.length ≤ (utf8 s).length := by
  induction s with
  | nil => exact le_rfl
  | cons c s ih =>
    simp only [utf8_cons, List.length_append, String.length_utf8EncodeChar, List.length_cons]
    have := c.utf8Size_pos; omega

@[simp] theorem length_fmtLeft (w : Nat) (s : List Char) : (fmtLeft w s).length = max w s.length := by
  simp [fmtLeft]; omega

theorem digitChar_utf8Size {d : Nat} (h : d < 10) : (Nat.digitChar d).utf8Size = 1 := by
  interval_cases d <;> rfl

theorem toDigitsCore_ascii {b : Nat} (hb0 : 0 < b) (hb : b ≤ 10) :
    ∀ (f n : Nat) (ds : List Char), Ascii ds → Ascii (Nat.toDigitsCore b f n ds)
  | 0, _, _, h => h
  | f + 1, n, ds, h => by
    have hd : (Nat.digitChar (n % b)).utf8Size = 1 :=
      digitChar_utf8Size (lt_of_lt_of_le (Nat.mod_lt _ hb0) hb)
    have hc : Ascii (Nat.digitChar (n % b) :: ds) := by
      intro c hc; rcases List.mem_cons.1 hc with rfl | hc
      · exact hd
      · exact h c hc
    simp only [Nat.toDigitsCore]
    split
    · exact hc
    · exact toDigitsCore_ascii hb0 hb f _ _ hc

theorem decimal_ascii (n : Nat) : Ascii (decimal n) :=
  toDigitsCore_ascii (by decide) (by decide) _ _ _ (by simp [Ascii])

theorem octal_ascii (n : Nat) : Ascii (octal n) :=
  toDigitsCore_ascii (by decide) (by decide) _ _ _ (by simp [Ascii])

theorem length_decimal_le {n w : Nat} (h : n < 10 ^ w) (hw : 0 < w) : (decimal n).length ≤ w :=
  Nat.toDigitsCore_length 10 (by decide) _ n w h hw

theorem length_octal_le {n w : Nat} (h : n < 8 ^ w) (hw : 0 < w) : (octal n).length ≤ w :=
  Nat.toDigitsCore_length 8 (by decide) _ n w h hw


end ArchiveWriter
