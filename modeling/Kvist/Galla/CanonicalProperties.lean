import Kvist.Galla.EnforcementProperties

/-!
# Canonical URLs

A parsed origin is written as a URL that is read as the origin again, as long as it is not too long.
A URL is canonical if it is written that way. Names and IPv4 addresses have one spelling only, but
an IPv6 address stays as it is spelled.
-/

set_option autoImplicit false

namespace Kvist.Galla

open Text Paths Address

/-! ## Reading and writing an origin -/

def isUrlCharacter (character : Char) : Bool :=
  character != '\x00' && character != '%' && character != '?' && character != '#' &&
    !isWhitespace character

/-- What holds of the origin of a URL. -/
structure Origin.WellFormed (origin : Origin) : Prop where
  lower : toAsciiLowercase origin.host = origin.host
  host : validateHost origin.host = .ok ()
  small : origin.port ≤ 65535
  loopback : origin.scheme = .http → isLoopbackHost origin.host = true
  absolute : ∃ tail, origin.path = '/' :: tail
  path : canonicalPath origin.path = .ok origin.path
  characters : ∀ character ∈ origin.path, isUrlCharacter character = true

theorem parse_ok_iff {url : List Char} {origin : Origin} :
    parse url = .ok origin ↔ Json.utf8Bytes url ≤ maxUrlBytes ∧
      (∀ character ∈ url, isUrlCharacter character = true) ∧
      ∃ rest, url = origin.scheme.asStr ++ "://".toList ++ rest ∧
        parseRest origin.scheme rest = .ok origin := by
  have characters : (∀ character ∈ url, isUrlCharacter character = true) ↔
      '\x00' ∉ url ∧ '%' ∉ url ∧ ('?' ∉ url ∧ '#' ∉ url) ∧ url.any isWhitespace = false := by
    simp only [isUrlCharacter, Bool.and_eq_true, bne_iff_ne, Bool.not_eq_true', List.any_eq_false]
    constructor
    · intro all
      refine ⟨fun member => (all _ member).1.1.1.1 rfl, fun member => (all _ member).1.1.1.2 rfl,
        ⟨fun member => (all _ member).1.1.2 rfl, fun member => (all _ member).1.2 rfl⟩, ?_⟩
      intro character member
      simp [(all character member).2]
    · intro ⟨zero, percent, ⟨question, fragment⟩, blank⟩ character member
      refine ⟨⟨⟨⟨?_, ?_⟩, ?_⟩, ?_⟩, by simpa using blank character member⟩
      · exact fun same => zero (same ▸ member)
      · exact fun same => percent (same ▸ member)
      · exact fun same => question (same ▸ member)
      · exact fun same => fragment (same ▸ member)
  rw [characters]
  simp only [parse, bind_unit_ok_iff, ensure_ok_iff, Bool.not_eq_true', Bool.or_eq_false_iff,
    List.contains_eq_mem, decide_eq_false_iff_not, decide_eq_true_eq, and_assoc]
  refine and_congr_right fun _ => and_congr_right fun _ => and_congr_right fun _ =>
    and_congr_right fun _ => and_congr_right fun _ => and_congr_right fun _ => ?_
  constructor
  · intro parsed
    cases secure : stripLeading "https://".toList url with
    | some rest =>
        rw [secure] at parsed
        have scheme := (parseRest_ok parsed).1
        exact ⟨rest, by rw [stripLeading_eq_some_iff.mp secure, scheme]; rfl, scheme ▸ parsed⟩
    | none =>
        rw [secure] at parsed
        dsimp only at parsed
        cases plain : stripLeading "http://".toList url with
        | some rest =>
            rw [plain] at parsed
            have scheme := (parseRest_ok parsed).1
            exact ⟨rest, by rw [stripLeading_eq_some_iff.mp plain, scheme]; rfl, scheme ▸ parsed⟩
        | none =>
            rw [plain] at parsed
            cases parsed
  · intro ⟨rest, written, parsed⟩
    cases scheme : origin.scheme with
    | https =>
        rw [scheme] at written parsed
        have secure : stripLeading "https://".toList url = some rest :=
          stripLeading_eq_some_iff.mpr written
        rw [secure]
        exact parsed
    | http =>
        rw [scheme] at written parsed
        have other : stripLeading "https://".toList url = none := by
          rw [written]
          simp [stripLeading, Scheme.asStr, List.isPrefixOf]
        have plain : stripLeading "http://".toList url = some rest :=
          stripLeading_eq_some_iff.mpr written
        rw [other]
        dsimp only
        rw [plain]
        exact parsed

theorem parseExplicitPort_small {text : List Char} {port : Nat}
    (parsed : parseExplicitPort text = .ok port) : port ≤ 65535 := by
  simp only [parseExplicitPort, bind_unit_ok_iff, ensure_ok_iff, decide_eq_true_eq, pure_eq_ok,
    Except.ok.injEq] at parsed
  exact parsed.2.2 ▸ parsed.2.1

theorem Scheme.defaultPort_small (scheme : Scheme) : scheme.defaultPort ≤ 65535 := by
  cases scheme <;> decide

theorem parsePort_small {text : List Char} {scheme : Scheme} {port : Nat}
    (parsed : parsePort text scheme = .ok port) : port ≤ 65535 := by
  rw [parsePort] at parsed
  split at parsed
  · exact Except.ok.inj parsed ▸ scheme.defaultPort_small
  · split at parsed
    · cases parsed
    · exact parseExplicitPort_small parsed

theorem toAsciiLowercase_idempotent (text : List Char) :
    toAsciiLowercase (toAsciiLowercase text) = toAsciiLowercase text := by
  rw [toAsciiLowercase, toAsciiLowercase, List.map_map]
  exact List.map_congr_left fun character _ => toLower_idempotent character

/-- A host is read in lower case, and a port within sixteen bits. -/
theorem splitAuthority_ok {authority host : List Char} {scheme : Scheme} {port : Nat}
    (split : splitAuthority authority scheme = .ok (host, port)) :
    toAsciiLowercase host = host ∧ port ≤ 65535 := by
  rw [splitAuthority] at split
  cases leading : stripLeading ['['] authority with
  | some rest =>
      rw [leading] at split
      dsimp only at split
      cases closed : splitOnce ']' rest with
      | none =>
          rw [closed] at split
          cases split
      | some parts =>
          rw [closed] at split
          obtain ⟨number, parsed, same⟩ := bind_ok_iff.mp split
          cases same
          exact ⟨toAsciiLowercase_idempotent _, parsePort_small parsed⟩
  | none =>
      rw [leading] at split
      dsimp only at split
      cases parts : rsplitOnce ':' authority with
      | none =>
          rw [parts] at split
          cases split
          exact ⟨toAsciiLowercase_idempotent _, scheme.defaultPort_small⟩
      | some pair =>
          rw [parts] at split
          obtain ⟨number, parsed, same⟩ := bind_ok_iff.mp split
          cases same
          exact ⟨toAsciiLowercase_idempotent _, parseExplicitPort_small parsed⟩

theorem wellFormed_of_parse {url : List Char} {origin : Origin} (parsed : parse url = .ok origin) :
    origin.WellFormed := by
  obtain ⟨-, characters, rest, written, restParsed⟩ := parse_ok_iff.mp parsed
  obtain ⟨-, facts⟩ := parseRest_ok restParsed
  obtain ⟨lower, small⟩ := splitAuthority_ok facts.authority
  have path : canonicalPath origin.path = .ok origin.path := by
    simp only [parseRest, bind_ok_iff, ensure_eq_ok_iff, exists_const, pure_eq_ok,
      Except.ok.injEq] at restParsed
    obtain ⟨-, -, authority, -, -, -, -, path, accepted, same⟩ := restParsed
    have found : path = origin.path := congrArg Origin.path same
    rw [← facts.path, found] at accepted
    exact accepted
  refine ⟨lower, facts.host, small, facts.loopback, ?_, path, ?_⟩
  · rw [facts.path]
    split
    · rename_i slash
      cases dropped : rest.dropWhile (· != '/') with
      | nil =>
          rw [List.dropWhile_eq_nil_iff] at dropped
          have other := dropped '/' (by simpa using slash)
          simp at other
      | cons first tail =>
          have head := List.head?_dropWhile_not (· != '/') rest
          rw [dropped] at head
          exact ⟨tail, by simpa using head⟩
    · exact ⟨[], rfl⟩
  · intro character member
    rw [facts.path] at member
    split at member
    · apply characters
      rw [written]
      exact List.mem_append_right _ ((List.dropWhile_sublist _).subset member)
    · rw [List.mem_singleton.mp member]
      rfl

theorem isAsciiAlphanumeric_url {character : Char} (letter : isAsciiAlphanumeric character = true) :
    isUrlCharacter character = true ∧ character ≠ '/' ∧ character ≠ '@' := by
  have range : 48 ≤ character.toNat ∧ character.toNat ≤ 57 ∨
      97 ≤ character.toNat ∧ character.toNat ≤ 122 ∨
      65 ≤ character.toNat ∧ character.toNat ≤ 90 := by
    simp only [isAsciiAlphanumeric, isAsciiDigit, Bool.or_eq_true, Bool.and_eq_true,
      decide_eq_true_eq] at letter
    rcases letter with (digit | small) | large
    · exact .inl digit
    · exact .inr (.inl small)
    · exact .inr (.inr large)
  have other (outside : Char) (far : outside.toNat < 48 ∨ outside.toNat = 63 ∨
      outside.toNat = 64) : character ≠ outside := by
    intro same
    rw [← same] at far
    omega
  have solid : isWhitespace character = false := by
    simp only [isWhitespace, Bool.or_eq_false_iff, Bool.and_eq_false_iff,
      decide_eq_false_iff_not, beq_eq_false_iff_ne]
    omega
  refine ⟨?_, other '/' (by decide), other '@' (by decide)⟩
  simp only [isUrlCharacter, solid, Bool.not_false, Bool.and_true, Bool.and_eq_true, bne_iff_ne]
  exact ⟨⟨⟨other _ (by decide), other _ (by decide)⟩, other _ (by decide)⟩, other _ (by decide)⟩

def Origin.authorityText (origin : Origin) : List Char :=
  (if origin.host.contains ':' then '[' :: (origin.host ++ [']']) else origin.host) ++
    if origin.port = origin.scheme.defaultPort then [] else ':' :: (toString origin.port).toList

namespace Origin.WellFormed

variable {origin : Origin}

theorem legal (formed : origin.WellFormed) {character : Char} (member : character ∈ origin.host) :
    isAsciiAlphanumeric character = true ∨ character = '.' ∨ character = '-' ∨
      character = ':' := by
  have legal := validateHost_legal formed.host character member
  simp only [Bool.or_eq_true, beq_iff_eq] at legal
  tauto

theorem nonempty (formed : origin.WellFormed) : origin.host ≠ [] := by
  have valid := formed.host
  rw [validateHost, bind_unit_ok_iff, ensure_ok_iff] at valid
  simpa using valid.1

theorem absent (formed : origin.WellFormed) {character : Char}
    (other : (isAsciiAlphanumeric character || character == '.' || character == '-' ||
      character == ':') = false) : character ∉ origin.host := by
  intro member
  rw [validateHost_legal formed.host character member] at other
  cases other

theorem head (formed : origin.WellFormed) : origin.host.head? ≠ some '[' := by
  intro bracket
  have outside : '[' ∉ origin.host := formed.absent rfl
  exact outside (List.mem_of_mem_head? bracket)

theorem serialize_eq (formed : origin.WellFormed) :
    serialize origin = origin.scheme.asStr ++ "://".toList ++
      (origin.authorityText ++ origin.path) := by
  have bracket : (origin.host.head? != some '[') = true := bne_iff_ne.mpr formed.head
  rw [serialize, bracket, Bool.and_true, authorityText]
  by_cases implied : origin.port = origin.scheme.defaultPort
  · simp only [if_pos implied, List.append_nil, List.append_assoc]
  · simp only [if_neg implied, List.append_assoc, List.cons_append]

theorem splitAuthority_text (formed : origin.WellFormed) :
    splitAuthority origin.authorityText origin.scheme = .ok (origin.host, origin.port) := by
  rw [authorityText]
  by_cases colon : ':' ∈ origin.host
  · rw [if_pos (by simpa using colon)]
    have closing : ']' ∉ origin.host := formed.absent rfl
    rw [splitAuthority, List.cons_append, List.append_assoc]
    have opened : ∀ rest : List Char, stripLeading ['['] ('[' :: rest) = some rest := fun rest =>
      stripLeading_append ['['] rest
    rw [opened]
    dsimp only
    rw [List.singleton_append, splitOnce_append closing]
    dsimp only
    rw [formed.lower]
    by_cases implied : origin.port = origin.scheme.defaultPort
    · rw [if_pos implied, parsePort]
      simp [implied]
    · rw [if_neg implied, parsePort, if_neg (by simp)]
      have port : stripLeading [':'] (':' :: (toString origin.port).toList) =
          some (toString origin.port).toList := stripLeading_append [':'] _
      rw [port]
      dsimp only
      rw [parseExplicitPort_toString formed.small]
      rfl
  · rw [if_neg (by simpa using colon),
      splitAuthority_default formed.head colon formed.small formed.nonempty, formed.lower]

theorem mem_authorityText (formed : origin.WellFormed) {character : Char}
    (member : character ∈ origin.authorityText) :
    isUrlCharacter character = true ∧ character ≠ '/' ∧ character ≠ '@' := by
  have named : isAsciiAlphanumeric character = true ∨ character = '.' ∨ character = '-' ∨
      character = ':' ∨ character = '[' ∨ character = ']' := by
    rw [authorityText, List.mem_append] at member
    rcases member with written | port
    · split at written
      · rcases List.mem_cons.mp written with same | inside
        · exact .inr (.inr (.inr (.inr (.inl same))))
        · rcases List.mem_append.mp inside with inside | same
          · rcases formed.legal inside with letter | same | same | same
            · exact .inl letter
            · exact .inr (.inl same)
            · exact .inr (.inr (.inl same))
            · exact .inr (.inr (.inr (.inl same)))
          · exact .inr (.inr (.inr (.inr (.inr (List.mem_singleton.mp same)))))
      · rcases formed.legal written with letter | same | same | same
        · exact .inl letter
        · exact .inr (.inl same)
        · exact .inr (.inr (.inl same))
        · exact .inr (.inr (.inr (.inl same)))
    · split at port
      · cases port
      · rcases List.mem_cons.mp port with same | digit
        · exact .inr (.inr (.inr (.inl same)))
        · left
          rw [isAsciiAlphanumeric, digit_of_mem_toString digit]
          rfl
  rcases named with letter | rfl | rfl | rfl | rfl | rfl
  · exact isAsciiAlphanumeric_url letter
  all_goals decide

/-- The origin is read again from the way it is written, as far as it is not too long. -/
theorem parse_spelled_iff (formed : origin.WellFormed) :
    parse (serialize origin) = .ok origin ↔ Json.utf8Bytes (serialize origin) ≤ maxUrlBytes := by
  have clear : '/' ∉ origin.authorityText := fun member =>
    (formed.mem_authorityText member).2.1 rfl
  obtain ⟨tail, absolute⟩ := formed.absolute
  have before : ∀ character ∈ origin.authorityText, (character != '/') = true := by
    intro character member
    exact bne_iff_ne.mpr (formed.mem_authorityText member).2.1
  have taken : (origin.authorityText ++ origin.path).takeWhile (· != '/') =
      origin.authorityText := by
    rw [List.takeWhile_append_of_pos before, absolute]
    simp
  have dropped : (origin.authorityText ++ origin.path).dropWhile (· != '/') = origin.path := by
    rw [List.dropWhile_append_of_pos before, absolute]
    simp
  have slash : (origin.authorityText ++ origin.path).contains '/' = true := by
    rw [absolute]
    simp
  have written : origin.authorityText ≠ [] := by
    intro empty
    rw [authorityText, List.append_eq_nil_iff] at empty
    have host := empty.1
    split at host
    · cases host
    · exact formed.nonempty host
  have rest : parseRest origin.scheme (origin.authorityText ++ origin.path) = .ok origin := by
    rw [parseRest, taken, dropped, if_pos slash, bind_unit_ok_iff, ensure_ok_iff]
    refine ⟨by simpa using written, ?_⟩
    rw [bind_unit_ok_iff, ensure_ok_iff]
    have plain : '@' ∉ origin.authorityText := fun member =>
      (formed.mem_authorityText member).2.2 rfl
    refine ⟨by simpa using plain, ?_⟩
    rw [formed.splitAuthority_text, ok_bind]
    dsimp only
    rw [bind_unit_ok_iff, bind_unit_ok_iff, ensure_ok_iff]
    refine ⟨formed.host, ?_, ?_⟩
    · cases scheme : origin.scheme with
      | https => rfl
      | http => simp [formed.loopback scheme]
    · rw [formed.path]
      rfl
  rw [parse_ok_iff]
  constructor
  · intro parsed
    exact parsed.1
  · intro bounded
    refine ⟨bounded, ?_, origin.authorityText ++ origin.path, formed.serialize_eq, rest⟩
    intro character member
    rw [formed.serialize_eq, List.mem_append, List.mem_append, List.mem_append] at member
    rcases member with (scheme | marks) | authority | path
    · cases same : origin.scheme <;> rw [same] at scheme <;>
        exact List.all_eq_true.mp (by decide) character scheme
    · exact List.all_eq_true.mp (by decide) character marks
    · exact (formed.mem_authorityText authority).1
    · exact formed.characters character path

end Origin.WellFormed

/-! ## The spellings of an address -/

theorem digitValue_ten {character : Char} {digit : Nat}
    (read : digitValue 10 character = some digit) :
    digit < 10 ∧ character = Nat.digitChar digit := by
  rw [digitValue, Option.filter_eq_some_iff, decide_eq_true_eq] at read
  obtain ⟨value, small⟩ := read
  refine ⟨small, ?_⟩
  have zero : '0'.toNat = 48 := rfl
  split at value
  · rename_i decimal
    have low : 48 ≤ character.toNat := decimal.1
    have high : character.toNat ≤ 57 := decimal.2
    have code : character.toNat = digit + 48 := by
      have difference := Option.some.inj value
      omega
    have digits : ∀ number < 10, Nat.digitChar number = Char.ofNat (number + 48) := by decide
    rw [digits digit small, ← code, Char.ofNat_toNat]
  · split at value
    · have difference := Option.some.inj value
      omega
    · split at value
      · have difference := Option.some.inj value
        omega
      · cases value

theorem takeDigits_ten {text rest : List Char} {digits : List Nat}
    (taken : takeDigits 10 text = (digits, rest)) :
    text = digits.map Nat.digitChar ++ rest ∧ ∀ digit ∈ digits, digit < 10 := by
  induction text generalizing digits with
  | nil =>
      cases taken
      exact ⟨rfl, by simp⟩
  | cons character others ih =>
      rw [takeDigits] at taken
      cases read : digitValue 10 character with
      | none =>
          rw [read] at taken
          cases taken
          exact ⟨rfl, by simp⟩
      | some digit =>
          rw [read] at taken
          cases taken
          obtain ⟨small, same⟩ := digitValue_ten read
          obtain ⟨written, bounded⟩ := ih rfl
          refine ⟨?_, List.forall_mem_cons.mpr ⟨small, bounded⟩⟩
          rw [List.map_cons, List.cons_append, ← written, same]

/-- The digits of an octet. -/
structure OctetDigits (digits : List Nat) : Prop where
  nonempty : digits ≠ []
  short : digits.length ≤ 3
  leading : digits.head? = some 0 → digits.length ≤ 1
  decimal : ∀ digit ∈ digits, digit < 10

theorem readNumber_octet {text rest : List Char} {value : Nat}
    (read : readNumber 10 3 255 false text = some (value, rest)) :
    ∃ digits, OctetDigits digits ∧ text = digits.map Nat.digitChar ++ rest ∧
      ofDigits 10 digits = value := by
  obtain ⟨digits, behind, taken⟩ : ∃ digits behind, takeDigits 10 text = (digits, behind) :=
    ⟨_, _, rfl⟩
  rw [readNumber, taken] at read
  dsimp only at read
  split at read
  · cases read
  · rename_i accepted
    cases read
    obtain ⟨written, decimal⟩ := takeDigits_ten taken
    simp only [Bool.or_eq_true, Bool.and_eq_true, not_or, not_and, List.isEmpty_iff,
      decide_eq_true_eq, beq_iff_eq, Bool.not_false, true_and, not_lt] at accepted
    exact ⟨digits, ⟨accepted.1.1.1, accepted.1.1.2, accepted.1.2, decimal⟩, written, rfl⟩

theorem octetDigits_unique {left right : List Nat} (leftDigits : OctetDigits left)
    (rightDigits : OctetDigits right) (same : ofDigits 10 left = ofDigits 10 right) :
    left = right := by
  obtain ⟨leftNonempty, leftShort, leftLeading, leftDecimal⟩ := leftDigits
  obtain ⟨rightNonempty, rightShort, rightLeading, rightDecimal⟩ := rightDigits
  rcases left with _ | ⟨a, _ | ⟨b, _ | ⟨c, _ | ⟨d, rest⟩⟩⟩⟩ <;>
    rcases right with _ | ⟨e, _ | ⟨f, _ | ⟨g, _ | ⟨h, others⟩⟩⟩⟩ <;>
    simp_all [ofDigits] <;> omega

theorem readNumber_unique {text other rest otherRest : List Char} {value : Nat}
    (read : readNumber 10 3 255 false text = some (value, rest))
    (readOther : readNumber 10 3 255 false other = some (value, otherRest)) :
    ∃ front, text = front ++ rest ∧ other = front ++ otherRest := by
  obtain ⟨digits, octet, written, same⟩ := readNumber_octet read
  obtain ⟨others, otherOctet, otherWritten, otherSame⟩ := readNumber_octet readOther
  obtain rfl := octetDigits_unique octet otherOctet (same.trans otherSame.symm)
  exact ⟨digits.map Nat.digitChar, written, otherWritten⟩

theorem readGiven_some {expected : Char} {text rest : List Char}
    (read : readGiven expected text = some rest) : text = expected :: rest := by
  cases text with
  | nil => cases read
  | cons character others =>
      rw [readGiven] at read
      split at read
      · rename_i same
        rw [same, Option.some.inj read]
      · cases read

/-- A dotted address has one spelling. -/
theorem readIpv4_unique {text other rest otherRest : List Char} {address : Ipv4}
    (read : readIpv4 text = some (address, rest))
    (readOther : readIpv4 other = some (address, otherRest)) :
    ∃ front, text = front ++ rest ∧ other = front ++ otherRest := by
  simp only [readIpv4, Option.bind_eq_bind, Option.bind_eq_some_iff, Prod.exists, Option.pure_def,
    Option.some.injEq, Prod.mk.injEq] at read readOther
  obtain ⟨first, _, firstRead, _, firstDot, second, _, secondRead, _, secondDot, third, _,
    thirdRead, _, thirdDot, fourth, _, fourthRead, same, rfl⟩ := read
  obtain ⟨_, _, firstOther, _, firstDotOther, _, _, secondOther, _, secondDotOther, _, _,
    thirdOther, _, thirdDotOther, _, _, fourthOther, sameOther, rfl⟩ := readOther
  rw [← same, Ipv4.mk.injEq] at sameOther
  obtain ⟨rfl, rfl, rfl, rfl⟩ := sameOther
  obtain ⟨front, rfl, rfl⟩ := readNumber_unique firstRead firstOther
  obtain ⟨secondFront, secondText, secondOtherText⟩ := readNumber_unique secondRead secondOther
  obtain ⟨thirdFront, thirdText, thirdOtherText⟩ := readNumber_unique thirdRead thirdOther
  obtain ⟨fourthFront, fourthText, fourthOtherText⟩ := readNumber_unique fourthRead fourthOther
  refine ⟨front ++ '.' :: (secondFront ++ '.' :: (thirdFront ++ '.' :: fourthFront)), ?_, ?_⟩
  · rw [readGiven_some firstDot, secondText, readGiven_some secondDot, thirdText,
      readGiven_some thirdDot, fourthText]
    simp
  · rw [readGiven_some firstDotOther, secondOtherText, readGiven_some secondDotOther,
      thirdOtherText, readGiven_some thirdDotOther, fourthOtherText]
    simp

theorem takeDigits_suffix {radix : Nat} (text : List Char) :
    (takeDigits radix text).2 <:+ text := by
  induction text with
  | nil => exact List.suffix_rfl
  | cons character rest ih =>
      rw [takeDigits]
      cases digitValue radix character with
      | none => exact List.suffix_rfl
      | some digit => exact ih.trans (List.suffix_cons character rest)

theorem readNumber_suffix {radix maxDigits limit value : Nat} {leadingZeros : Bool}
    {text rest : List Char}
    (read : readNumber radix maxDigits limit leadingZeros text = some (value, rest)) :
    rest <:+ text := by
  rw [readNumber] at read
  dsimp only at read
  split at read
  · cases read
  · cases read
    exact takeDigits_suffix text

theorem readIpv6_of_ipv4 {text rest : List Char} {address : Ipv4}
    (read : readIpv4 text = some (address, rest)) : readIpv6 text = none := by
  have groups : readGroups 8 true text =
      ([address.first * 256 + address.second, address.third * 256 + address.fourth], true,
        rest) := by
    rw [readGroups]
    simp only [if_true, Nat.zero_lt_succ, read]
  rw [readIpv6, groups]
  rfl

theorem readGroups_none {text : List Char} (dotted : readIpv4 text = none)
    (number : readNumber 16 4 65535 true text = none) :
    readGroups 8 true text = ([], false, text) := by
  rw [readGroups]
  simp only [if_true, Nat.zero_lt_succ, dotted, number]

theorem readGroups_single {text rest : List Char} {group : Nat} (dotted : readIpv4 text = none)
    (number : readNumber 16 4 65535 true text = some (group, rest))
    (separated : readGiven ':' rest = none) :
    readGroups 8 true text = ([group], false, rest) := by
  have others : readGroups 7 false rest = ([], false, rest) := by
    rw [readGroups]
    simp only [Bool.false_eq_true, if_false, separated]
  rw [readGroups]
  simp only [if_true, Nat.zero_lt_succ, dotted, number, others]

theorem colon_of_readIpv6 {text rest : List Char} {address : Ipv6}
    (read : readIpv6 text = some (address, rest)) : ':' ∈ text := by
  cases dotted : readIpv4 text with
  | some octets =>
      rw [@readIpv6_of_ipv4 text octets.2 octets.1 dotted] at read
      cases read
  | none =>
      cases number : readNumber 16 4 65535 true text with
      | none =>
          rw [readIpv6, readGroups_none dotted number] at read
          cases first : readGiven ':' text with
          | none => simp [first] at read
          | some after =>
              rw [readGiven_some first]
              exact List.mem_cons_self
      | some found =>
          obtain ⟨group, behind⟩ := found
          have inside := (readNumber_suffix number).subset
          cases separated : readGiven ':' behind with
          | none =>
              rw [readIpv6, readGroups_single dotted number separated] at read
              simp [separated] at read
          | some after =>
              apply inside
              rw [readGiven_some separated]
              exact List.mem_cons_self

theorem parseIpAddress_v6 {text : List Char} {address : Ipv6} :
    parseIpAddress text = some (.v6 address) ↔ parseIpv6 text = some address := by
  rw [parseIpAddress, parseIpv6]
  cases dotted : readIpv4 text with
  | some octets =>
      rw [@readIpv6_of_ipv4 text octets.2 octets.1 dotted]
      simp
  | none =>
      cases grouped : readIpv6 text with
      | none => simp
      | some read => simp

theorem parseIpAddress_v4 {text : List Char} {address : Ipv4}
    (read : parseIpAddress text = some (.v4 address)) : readIpv4 text = some (address, []) := by
  rw [parseIpAddress] at read
  cases dotted : readIpv4 text with
  | some octets =>
      rw [dotted] at read
      simp only [Option.map_some, Option.some_or, Option.bind_some, List.isEmpty_iff] at read
      split at read
      · rename_i whole
        cases read
        rw [← whole]
      · cases read
  | none =>
      rw [dotted] at read
      cases grouped : readIpv6 text with
      | none => simp [grouped] at read
      | some found => simp [grouped] at read

theorem colon_of_parseIpv6 {text : List Char} {address : Ipv6}
    (read : parseIpv6 text = some address) : ':' ∈ text := by
  rw [parseIpv6, Option.bind_eq_some_iff] at read
  obtain ⟨found, grouped, -⟩ := read
  exact @colon_of_readIpv6 text found.2 found.1 grouped

namespace Origin.WellFormed

variable {origin : Origin}

theorem parseIpv6_of_colon (formed : origin.WellFormed) (colon : ':' ∈ origin.host) :
    ∃ address, parseIpv6 origin.host = some address := by
  have valid := formed.host
  simp only [validateHost, bind_unit_ok_iff, ensure_ok_iff, List.contains_eq_mem,
    decide_eq_true colon, if_true] at valid
  exact Option.isSome_iff_exists.mp valid.2.2

theorem host_unique {other : Origin} (formed : origin.WellFormed) (otherFormed : other.WellFormed)
    (same : connectTarget origin.host = connectTarget other.host) :
    origin.host = other.host ∨ ∃ address, parseIpv6 origin.host = some address ∧
      parseIpv6 other.host = some address := by
  rw [connectTarget, connectTarget, formed.lower, otherFormed.lower] at same
  cases read : parseIpAddress origin.host with
  | none =>
      rw [read] at same
      cases readOther : parseIpAddress other.host with
      | none =>
          rw [readOther] at same
          exact .inl (ConnectTarget.name.inj same)
      | some address =>
          rw [readOther] at same
          cases same
  | some address =>
      rw [read] at same
      cases readOther : parseIpAddress other.host with
      | none =>
          rw [readOther] at same
          cases same
      | some otherAddress =>
          rw [readOther] at same
          obtain rfl := ConnectTarget.address.inj same
          cases address with
          | v4 octets =>
              obtain ⟨front, written, otherWritten⟩ :=
                readIpv4_unique (parseIpAddress_v4 read) (parseIpAddress_v4 readOther)
              exact .inl (written.trans otherWritten.symm)
          | v6 segments =>
              exact .inr ⟨segments, parseIpAddress_v6.mp read, parseIpAddress_v6.mp readOther⟩

/-- Behind plain HTTP there is one spelling of an IPv6 address. -/
theorem plain_spelling (formed : origin.WellFormed) (plain : origin.scheme = .http)
    (colon : ':' ∈ origin.host) : origin.host = "::1".toList := by
  rcases isLoopbackHost_shapes (formed.loopback plain) with same | same | ⟨rest, same⟩
  · rw [same] at colon
    exact absurd colon (by decide)
  · exact same
  · obtain ⟨address, read⟩ := formed.parseIpv6_of_colon colon
    have whole := parseIpAddress_v6.mpr read
    rw [same] at whole
    obtain ⟨octets, dotted⟩ := parseIpAddress_dotted whole
    cases dotted

end Origin.WellFormed

/-! ## One spelling for an endpoint -/

def SameEndpoint (origin other : Origin) : Prop :=
  origin.scheme = other.scheme ∧ connectTarget origin.host = connectTarget other.host ∧
    origin.port = other.port ∧ origin.path = other.path

/-- An accepted URL is written so that its origin is read again, and if that is how it is spelled, no
other spelling of its endpoint is canonical. -/
def OneSpelling (url : List Char) : Prop :=
  ∀ origin, parse url = .ok origin → parse (serialize origin) = .ok origin ∧
    (isCanonicalOriginUrl url = true → ∀ other otherOrigin, isCanonicalOriginUrl other = true →
      parse other = .ok otherOrigin → SameEndpoint origin otherOrigin → other = url)

/-- Another spelling of a host that is an IPv6 literal, with which the URL has at most 4096 bytes. -/
structure Respelled (origin : Origin) (host : List Char) : Prop where
  different : host ≠ origin.host
  lower : toAsciiLowercase host = host
  valid : validateHost host = .ok ()
  address : ∃ address, parseIpv6 origin.host = some address ∧ parseIpv6 host = some address
  secure : origin.scheme = .https
  bounded : Json.utf8Bytes (serialize { origin with host := host }) ≤ maxUrlBytes

theorem isCanonicalOriginUrl_iff {url : List Char} {origin : Origin}
    (parsed : parse url = .ok origin) :
    isCanonicalOriginUrl url = true ↔ serialize origin = url := by
  rw [isCanonicalOriginUrl, parsed]
  exact beq_iff_eq

theorem Respelled.wellFormed {origin : Origin} (formed : origin.WellFormed) {host : List Char}
    (respelled : Respelled origin host) : Origin.WellFormed { origin with host := host } where
  lower := respelled.lower
  host := respelled.valid
  small := formed.small
  loopback := by
    intro plain
    have secure := respelled.secure
    rw [show origin.scheme = .http from plain] at secure
    cases secure
  absolute := formed.absolute
  path := formed.path
  characters := formed.characters

/-- An endpoint has another canonical spelling exactly if its IPv6 address has one that fits. -/
theorem respelled_iff {origin : Origin} (formed : origin.WellFormed) :
    (∃ host, Respelled origin host) ↔ ∃ other, other ≠ origin ∧ SameEndpoint origin other ∧
      parse (serialize other) = .ok other := by
  constructor
  · rintro ⟨host, respelled⟩
    obtain ⟨address, read, readOther⟩ := respelled.address
    refine ⟨{ origin with host := host }, ?_, ⟨rfl, ?_, rfl, rfl⟩, ?_⟩
    · intro same
      exact respelled.different (congrArg Origin.host same)
    · rw [connectTarget, connectTarget, formed.lower, respelled.lower,
        parseIpAddress_v6.mpr read, parseIpAddress_v6.mpr readOther]
    · exact ((respelled.wellFormed formed).parse_spelled_iff).mpr respelled.bounded
  · rintro ⟨other, different, ⟨scheme, target, port, path⟩, parsed⟩
    have otherFormed := wellFormed_of_parse parsed
    have apart : other.host ≠ origin.host := by
      intro host
      apply different
      cases other
      cases origin
      cases scheme
      cases host
      cases port
      cases path
      rfl
    have other_eq : { origin with host := other.host } = other := by
      cases other
      cases origin
      cases scheme
      cases port
      cases path
      rfl
    rcases formed.host_unique otherFormed target with same | ⟨address, read, readOther⟩
    · exact absurd same.symm apart
    · refine ⟨other.host, apart, otherFormed.lower, otherFormed.host, ⟨address, read, readOther⟩,
        ?_, ?_⟩
      · cases secure : origin.scheme with
        | https => rfl
        | http =>
            have left := formed.plain_spelling secure (colon_of_parseIpv6 read)
            have right := otherFormed.plain_spelling (scheme ▸ secure)
              (colon_of_parseIpv6 readOther)
            exact absurd (right.trans left.symm) apart
      · rw [other_eq]
        exact otherFormed.parse_spelled_iff.mp parsed

/-- An accepted URL has one canonical spelling exactly if that spelling has at most 4096 bytes and, for
a canonical URL whose host is an IPv6 literal, no other spelling of its address fits. -/
theorem oneSpelling_iff (url : List Char) :
    OneSpelling url ↔ ∀ origin, parse url = .ok origin →
      Json.utf8Bytes (serialize origin) ≤ maxUrlBytes ∧
        (serialize origin = url → ∀ host, ¬Respelled origin host) := by
  rw [OneSpelling]
  refine forall_congr' fun origin => imp_congr_right fun parsed => ?_
  have formed := wellFormed_of_parse parsed
  rw [formed.parse_spelled_iff, isCanonicalOriginUrl_iff parsed]
  refine and_congr_right fun _ => imp_congr_right fun canonical => ?_
  constructor
  · intro unique host respelled
    obtain ⟨other, different, same, again⟩ := (respelled_iff formed).mp ⟨host, respelled⟩
    have written := unique (serialize other) other
      ((isCanonicalOriginUrl_iff again).mpr rfl) again same
    rw [written, parsed] at again
    exact different (Except.ok.inj again).symm
  · intro none other otherOrigin otherCanonical otherParsed same
    have written := (isCanonicalOriginUrl_iff otherParsed).mp otherCanonical
    by_cases equal : otherOrigin = origin
    · rw [← written, equal, canonical]
    · have again : parse (serialize otherOrigin) = .ok otherOrigin := by rw [written, otherParsed]
      obtain ⟨host, respelled⟩ := (respelled_iff formed).mpr ⟨otherOrigin, equal, same, again⟩
      exact absurd respelled (none host)

theorem address_spelled_twice :
    isCanonicalOriginUrl "https://[2606:4700::1111]/".toList = true ∧
      isCanonicalOriginUrl "https://[2606:4700:0:0:0:0:0:1111]/".toList = true ∧
      ¬OneSpelling "https://[2606:4700::1111]/".toList := by
  have short : isCanonicalOriginUrl "https://[2606:4700::1111]/".toList = true := by
    decide
  have long : isCanonicalOriginUrl "https://[2606:4700:0:0:0:0:0:1111]/".toList = true := by
    decide
  refine ⟨short, long, fun unique => ?_⟩
  have parsed : parse "https://[2606:4700::1111]/".toList =
      .ok ⟨.https, "2606:4700::1111".toList, 443, ['/']⟩ := by decide
  have again : parse "https://[2606:4700:0:0:0:0:0:1111]/".toList =
      .ok ⟨.https, "2606:4700:0:0:0:0:0:1111".toList, 443, ['/']⟩ := by decide
  have same := (unique _ parsed).2 short _ _ long again ⟨rfl, by decide, rfl, rfl⟩
  exact absurd same (by decide)

end Kvist.Galla
