import Kvist.Galla.EnforcementProperties

/-!
# Numeric spellings of hosts

The C library reads a host of one to four numbers as an IPv4 address, each number decimal, octal
behind a zero or hexadecimal behind `0x`. Such a host consists of hexadecimal digits, dots and
markers, with a digit among them, and of those only the canonical dotted addresses are accepted.
-/

set_option autoImplicit false

namespace Kvist.Galla

open Address Text

def isOctalDigit (character : Char) : Bool := '0' ≤ character && character ≤ '7'

/-- A number in the form in which the C library takes it, whatever its value. -/
inductive InetPart : List Char → Prop where
  | decimal {digits : List Char} : digits ≠ [] → digits.all isAsciiDigit = true → InetPart digits
  | octal {digits : List Char} : digits.all isOctalDigit = true → InetPart ('0' :: digits)
  | hexadecimal {marker : Char} {digits : List Char} : marker = 'x' ∨ marker = 'X' →
      digits.all isAsciiHexdigit = true → InetPart ('0' :: marker :: digits)

/-- One to four numbers with dots between them. -/
def InetForm (host : List Char) : Prop :=
  ∃ parts : List (List Char), 1 ≤ parts.length ∧ parts.length ≤ 4 ∧
    (∀ part ∈ parts, InetPart part) ∧ host = ['.'].intercalate parts

/-- Four decimal numbers below 256, spelled without leading zeros, with dots between them. -/
def DottedOctets (host : List Char) : Prop :=
  ∃ octets : List Nat, octets.length = 4 ∧ (∀ octet ∈ octets, octet < 256) ∧
    host = ['.'].intercalate (octets.map fun octet => (toString octet).toList)

theorem decimalValue_le_of_parseUnsigned {limit : Nat} {digits : List Char}
    (decimal : ∀ digit ∈ digits, isAsciiDigit digit = true)
    (read : (parseUnsigned limit digits).isSome = true) : decimalValue digits ≤ limit := by
  have unsigned : stripLeading ['+'] digits = none := by
    cases digits with
    | nil => rfl
    | cons first rest =>
        have other : '+' ≠ first := by
          rintro rfl
          cases decimal '+' List.mem_cons_self
        simp [stripLeading, other]
  rw [parseUnsigned, unsigned, Option.getD_none] at read
  by_contra large
  simp [Nat.lt_of_not_le large] at read

theorem dottedOctets_of_canonical {host : List Char} (canonical : isCanonicalDottedIpv4 host = true) :
    DottedOctets host := by
  simp only [isCanonicalDottedIpv4, Bool.and_eq_true, beq_iff_eq, List.all_eq_true,
    Bool.not_eq_true', List.isEmpty_eq_false_iff] at canonical
  obtain ⟨four, parts⟩ := canonical
  have joined : ['.'].intercalate (host.splitOn '.') = host := List.intercalate_splitOn '.'
  have spelled : ∀ part ∈ host.splitOn '.',
      decimalValue part < 256 ∧ (toString (decimalValue part)).toList = part := by
    intro part member
    obtain ⟨⟨⟨⟨nonempty, -⟩, decimal⟩, leading⟩, bounded⟩ := parts part member
    refine ⟨Nat.lt_succ_of_le (decimalValue_le_of_parseUnsigned decimal bounded),
      toString_decimalValue nonempty decimal fun zero => ?_⟩
    simpa [zero] using leading
  refine ⟨(host.splitOn '.').map decimalValue, by rw [List.length_map, four], ?_, ?_⟩
  · intro octet member
    obtain ⟨part, present, rfl⟩ := List.mem_map.mp member
    exact (spelled part present).1
  · have same : ((host.splitOn '.').map decimalValue).map (fun octet => (toString octet).toList) =
        host.splitOn '.' := by
      rw [List.map_map]
      exact (List.map_congr_left fun part member => (spelled part member).2).trans (List.map_id _)
    rw [same, joined]

/-- The characters of which a numeric spelling consists. -/
def isAliasCharacter (character : Char) : Bool :=
  isAsciiHexdigit character || character == '.' || character == 'x' || character == 'X'

theorem isAliasCharacter_hexadecimal {character : Char} (digit : isAsciiHexdigit character = true) :
    isAliasCharacter character = true := by
  rw [isAliasCharacter, digit]
  rfl

theorem isAsciiHexdigit_decimal {character : Char} (digit : isAsciiDigit character = true) :
    isAsciiHexdigit character = true := by
  rw [isAsciiHexdigit, digit]
  rfl

theorem isAsciiDigit_octal {character : Char} (digit : isOctalDigit character = true) :
    isAsciiDigit character = true := by
  simp only [isOctalDigit, isAsciiDigit, Bool.and_eq_true, decide_eq_true_eq] at digit ⊢
  exact ⟨digit.1, Nat.le_trans digit.2 (by decide : '7'.toNat ≤ '9'.toNat)⟩

namespace InetPart

theorem characters {part : List Char} (number : InetPart part) :
    ∀ character ∈ part, isAliasCharacter character = true := by
  intro character member
  cases number with
  | decimal _ digits =>
      exact isAliasCharacter_hexadecimal
        (isAsciiHexdigit_decimal (List.all_eq_true.mp digits character member))
  | octal digits =>
      rcases List.mem_cons.mp member with rfl | inside
      · rfl
      · exact isAliasCharacter_hexadecimal
          (isAsciiHexdigit_decimal (isAsciiDigit_octal (List.all_eq_true.mp digits character inside)))
  | hexadecimal marked digits =>
      rcases List.mem_cons.mp member with rfl | inside
      · rfl
      · rcases List.mem_cons.mp inside with rfl | behind
        · rcases marked with rfl | rfl <;> rfl
        · exact isAliasCharacter_hexadecimal (List.all_eq_true.mp digits character behind)

theorem digit {part : List Char} (number : InetPart part) :
    ∃ character ∈ part, isAsciiDigit character = true := by
  cases number with
  | decimal nonempty digits =>
      obtain ⟨first, rest, rfl⟩ := List.exists_cons_of_ne_nil nonempty
      exact ⟨first, List.mem_cons_self, List.all_eq_true.mp digits first List.mem_cons_self⟩
  | octal _ => exact ⟨'0', List.mem_cons_self, rfl⟩
  | hexadecimal _ _ => exact ⟨'0', List.mem_cons_self, rfl⟩

end InetPart

theorem isNumericIpv4Alias_of_inetForm {host : List Char} (form : InetForm host)
    (noncanonical : isCanonicalDottedIpv4 host = false) : isNumericIpv4Alias host = true := by
  obtain ⟨parts, nonempty, -, numbers, rfl⟩ := form
  have known : ∀ character ∈ ['.'].intercalate parts, isAliasCharacter character = true := by
    intro character member
    rcases mem_intercalate member with rfl | ⟨part, present, inside⟩
    · rfl
    · exact (numbers part present).characters character inside
  have counted : (['.'].intercalate parts).any isAsciiDigit = true := by
    cases parts with
    | nil => cases nonempty
    | cons first rest =>
        obtain ⟨character, inside, digit⟩ := (numbers first List.mem_cons_self).digit
        exact List.any_eq_true.mpr ⟨character, mem_intercalate_head rest inside, digit⟩
  rw [isNumericIpv4Alias, if_neg (Bool.eq_false_iff.mp noncanonical), counted, Bool.true_and]
  exact List.all_eq_true.mpr known

theorem not_isNumericIpv4Alias {host : List Char} (valid : validateHost host = .ok ())
    (named : ':' ∉ host) : isNumericIpv4Alias host = false := by
  have plain : host.contains ':' = false := by simpa using named
  simp only [validateHost, bind_unit_ok_iff, ensure_ok_iff, plain, Bool.false_eq_true,
    if_false] at valid
  simpa using valid.2.2.2

/-- An accepted host without a colon is a dotted address of four decimal octets, or the C library
does not take it for numbers. -/
theorem validateHost_inetForm {host : List Char} (valid : validateHost host = .ok ())
    (named : ':' ∉ host) : DottedOctets host ∨ ¬InetForm host := by
  cases canonical : isCanonicalDottedIpv4 host with
  | true => exact .inl (dottedOctets_of_canonical canonical)
  | false =>
      right
      intro form
      have aliased := isNumericIpv4Alias_of_inetForm form canonical
      rw [not_isNumericIpv4Alias valid named] at aliased
      cases aliased

theorem validateHost_inetForm_registry :
    DottedOctets "0xcafe.example".toList ∨ ¬InetForm "0xcafe.example".toList :=
  validateHost_inetForm (by decide) (by decide)

end Kvist.Galla
