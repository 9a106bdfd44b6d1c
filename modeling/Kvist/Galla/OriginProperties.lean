import Kvist.Galla.Origin

/-!
# What parsing an origin guarantees

A parsed path is the path as it was written, and its components decide which paths are within it.
Two origins overlap exactly where some URL is permitted under both.
-/

set_option autoImplicit false

namespace Kvist.Galla

open Text Paths

/-- An absolute path without empty components, apart from a slash at its end. -/
def CanonicalPath (path : List Char) : Prop :=
  ∃ components, Proper components ∧
    (path = render components ++ ['/'] ∨ (components ≠ [] ∧ path = render components))

theorem canonicalPath_ok {path canonical : List Char} (nonempty : path ≠ [])
    (accepted : canonicalPath path = .ok canonical) :
    canonical = path ∧ CanonicalPath path ∧
      ∀ component ∈ split path, component ≠ ['.'] ∧ component ≠ ['.', '.'] := by
  obtain ⟨first, rest, rfl⟩ := List.exists_cons_of_ne_nil nonempty
  simp only [canonicalPath, List.isEmpty_cons, Bool.false_eq_true, ite_false, bind_unit_ok_iff,
    ensure_ok_iff, List.head?_cons, beq_iff_eq, Option.some.injEq, Bool.not_eq_true',
    List.any_eq_false, Bool.or_eq_true, not_or, pure_eq_ok, Except.ok.injEq] at accepted
  obtain ⟨rfl, named, single, rfl⟩ := accepted
  have rendered := render_splitOn rest
  obtain ⟨front, last, parts⟩ : ∃ front last, rest.splitOn '/' = front ++ [last] :=
    ⟨_, _, (List.dropLast_concat_getLast (List.splitOn_ne_nil '/' rest)).symm⟩
  have clear := clear_splitOn rest
  have inside : Proper front := by
    intro component member
    refine ⟨?_, clear component (parts ▸ List.mem_append_left _ member)⟩
    intro empty
    obtain ⟨before, after, rfl⟩ := List.append_of_mem member
    rw [parts, empty, List.append_assoc, List.cons_append, render_append, render_cons] at rendered
    have doubled : containsText "//".toList ('/' :: rest) = true := by
      rw [containsText_iff, ← rendered]
      cases after with
      | nil => exact ⟨render before, last, by simp⟩
      | cons next after =>
          exact ⟨render before, next ++ render (after ++ [last]), by simp [render_append]⟩
    rw [doubled] at single
    cases single
  rw [parts] at rendered clear
  by_cases ended : last = []
  · rw [ended, render_push_empty] at rendered
    have components : split ('/' :: rest) = front := by
      rw [← rendered, split_render_slash inside]
    refine ⟨?_, ⟨front, inside, .inl rendered.symm⟩, named⟩
    rw [components]
    cases front with
    | nil =>
        rw [← rendered]
        rfl
    | cons component others =>
        have joined := @render_eq_join (component :: others) (by simp)
        have long : 1 < ('/' :: rest).length := by
          rw [← rendered, List.length_append, render_cons, List.length_cons]
          exact Nat.lt_add_of_pos_left (Nat.succ_pos _)
        have final : ('/' :: rest).getLast? = some '/' := by
          rw [← rendered, List.getLast?_append]
          rfl
        have other : (render (component :: others) != ['/']) = true := by
          rw [bne_iff_ne]
          intro same
          have nonempty := (inside component List.mem_cons_self).1
          simp [nonempty] at same
        rw [← joined, if_pos (by rw [decide_eq_true long, final, other]; rfl), rendered]
  · have proper : Proper (front ++ [last]) := by
      intro component member
      rcases List.mem_append.mp member with earlier | final
      · exact inside component earlier
      · rw [List.mem_singleton.mp final]
        exact ⟨ended, clear last (by simp)⟩
    have components : split ('/' :: rest) = front ++ [last] := by
      rw [← rendered, split_render proper]
    refine ⟨?_, ⟨_, proper, .inr ⟨by simp, rendered.symm⟩⟩, named⟩
    have final := getLast?_render proper
    rw [components, ← render_eq_join (by simp), if_neg, rendered]
    rw [← rendered]
    simp [final]

theorem stripTrailing_of_last {text : List Char} {last : Char} (other : text.getLast? ≠ some last) :
    stripTrailing [last] text = none := by
  rw [stripTrailing, Option.map_eq_none_iff]
  cases stripped : stripLeading [last].reverse text.reverse with
  | none => rfl
  | some rest =>
      have same := stripLeading_eq_some_iff.mp stripped
      rw [List.getLast?_eq_head?_reverse, same] at other
      exact absurd rfl other

/-- Without the slash at its end, a canonical path is its components. -/
theorem CanonicalPath.base {path : List Char} (canonical : CanonicalPath path) :
    (stripTrailing ['/'] path).getD path = render (split path) := by
  obtain ⟨components, proper, rfl | ⟨-, rfl⟩⟩ := canonical
  · rw [stripTrailing_append, split_render_slash proper]
    rfl
  · rw [stripTrailing_of_last (getLast?_render proper), split_render proper]
    rfl

theorem render_eq_nil {components : List (List Char)} (empty : render components = []) :
    components = [] := by
  cases components with
  | nil => rfl
  | cons => cases empty

/-- A path is within another exactly if it begins with the other's components. -/
theorem pathWithin_iff {path candidate : List Char} (canonical : CanonicalPath path)
    (candidateCanonical : CanonicalPath candidate) :
    pathWithin path candidate = true ↔ split path <+: split candidate := by
  have inside := render_prefix_iff (split_proper path) (split_proper candidate)
  simp only [pathWithin, canonical.base, Bool.or_eq_true, List.isEmpty_iff, beq_iff_eq,
    List.isPrefixOf_iff_prefix]
  obtain ⟨components, proper, rfl | ⟨-, rfl⟩⟩ := candidateCanonical
  · rw [split_render_slash proper] at inside ⊢
    constructor
    · intro within
      rcases within with (empty | same) | below
      · rw [render_eq_nil empty]
        exact List.nil_prefix
      · have final := getLast?_render (split_proper path)
        rw [← same, List.getLast?_append] at final
        exact absurd rfl final
      · exact inside.mp below
    · intro begins
      exact .inr (inside.mpr begins)
  · rw [split_render proper] at inside ⊢
    constructor
    · intro within
      rcases within with (empty | same) | below
      · rw [render_eq_nil empty]
        exact List.nil_prefix
      · exact inside.mp (same ▸ List.prefix_rfl)
      · exact inside.mp (below.trans (List.prefix_append ..))
    · intro begins
      rcases List.prefix_concat_iff.mp (inside.mpr begins) with same | below
      · exact .inl (.inr (List.append_cancel_right same).symm)
      · exact .inr below

/-- What an accepted URL consists of. -/
structure Parsed (rest : List Char) (origin : Origin) : Prop where
  authority : splitAuthority (rest.takeWhile (· != '/')) origin.scheme = .ok (origin.host, origin.port)
  plain : '@' ∉ rest.takeWhile (· != '/')
  host : validateHost origin.host = .ok ()
  loopback : origin.scheme = .http → isLoopbackHost origin.host = true
  path : origin.path = if rest.contains '/' then rest.dropWhile (· != '/') else ['/']
  canonical : CanonicalPath origin.path

theorem parseRest_ok {scheme : Scheme} {rest : List Char} {origin : Origin}
    (parsed : parseRest scheme rest = .ok origin) :
    origin.scheme = scheme ∧ Parsed rest origin := by
  simp only [parseRest, bind_ok_iff, ensure_eq_ok_iff, exists_const, pure_eq_ok,
    Except.ok.injEq] at parsed
  obtain ⟨-, plain, ⟨host, port⟩, split, ⟨⟩, valid, loopback, path, accepted, rfl⟩ := parsed
  have written : (if rest.contains '/' then rest.dropWhile (· != '/') else ['/']) ≠ [] := by
    split
    · rename_i slash
      intro empty
      rw [List.dropWhile_eq_nil_iff] at empty
      have same := empty '/' (by simpa using slash)
      simp at same
    · simp
  obtain ⟨same, canonical, -⟩ := canonicalPath_ok written accepted
  refine ⟨rfl, split, ?_, valid, ?_, same, same ▸ canonical⟩
  · simpa using plain
  · intro plainHttp
    simpa [show scheme = .http from plainHttp] using loopback

theorem parse_ok {url : List Char} {origin : Origin} (parsed : parse url = .ok origin) :
    '?' ∉ url ∧ '#' ∉ url ∧ ∃ rest, url = origin.scheme.asStr ++ "://".toList ++ rest ∧
      Parsed rest origin := by
  simp only [parse, bind_unit_ok_iff, ensure_ok_iff, Bool.not_eq_true', Bool.or_eq_false_iff,
    List.contains_eq_mem, decide_eq_false_iff_not] at parsed
  obtain ⟨-, -, -, ⟨question, fragment⟩, -, scheme⟩ := parsed
  refine ⟨question, fragment, ?_⟩
  split at scheme
  · rename_i rest stripped
    obtain ⟨secure, facts⟩ := parseRest_ok scheme
    refine ⟨rest, ?_, facts⟩
    rw [stripLeading_eq_some_iff.mp stripped, secure]
    rfl
  · split at scheme
    · rename_i rest stripped
      obtain ⟨open_text, facts⟩ := parseRest_ok scheme
      refine ⟨rest, ?_, facts⟩
      rw [stripLeading_eq_some_iff.mp stripped, open_text]
      rfl
    · cases scheme

theorem parseProduction_ok {url : List Char} {origin : Origin} :
    parseProduction url = .ok origin ↔ parse url = .ok origin ∧ origin.scheme = .https ∧
      (∀ address, Address.parseIpAddress origin.host = some address →
        isPublicAddress address = true) ∧ origin.host ≠ "localhost".toList := by
  simp only [parseProduction, bind_ok_iff, ensure_eq_ok_iff, exists_const, pure_eq_ok,
    Except.ok.injEq, beq_iff_eq, bne_iff_ne, Option.any_eq_false, Bool.not_eq_eq_eq_not,
    Bool.not_true, Bool.not_false]
  constructor
  · rintro ⟨parsed, accepted, secure, global, other, same⟩
    exact same ▸ ⟨accepted, secure, global, other⟩
  · rintro ⟨accepted, secure, global, other⟩
    exact ⟨origin, accepted, secure, global, other, rfl⟩

theorem parseInMode_ok {mode : TransportPolicyMode} {url : List Char} {origin : Origin}
    (parsed : OriginPolicy.parseInMode mode url = .ok origin) : parse url = .ok origin := by
  cases mode with
  | productionRemote => exact (parseProduction_ok.mp parsed).1
  | testLoopback => exact parsed

theorem permits_iff {policy : OriginPolicy} {url : List Char} :
    policy.permits url = true ↔ ∃ request,
      OriginPolicy.parseInMode policy.mode url = .ok request ∧
        ∃ allowed ∈ policy.allowed, allowed.sameAuthority request = true ∧
          pathWithin allowed.path request.path = true := by
  have target : policy.permits url = true ↔ ∃ request,
      policy.parseRequestTarget .cargoRegistryIndex url = .ok request ∧
        ∃ allowed ∈ policy.allowed, allowed.sameAuthority request = true ∧
          pathWithin allowed.path request.path = true := by
    rw [OriginPolicy.permits, OriginPolicy.authorizesRequest]
    cases policy.parseRequestTarget .cargoRegistryIndex url with
    | error message => simp
    | ok request => simp
  rw [target]
  apply exists_congr
  intro request
  apply and_congr_left
  intro _
  rw [OriginPolicy.parseRequestTarget, bind_unit_ok_iff, ensure_ok_iff]
  constructor
  · intro ⟨_, parsed⟩
    split at parsed
    · exact parsed
    · cases parsed
  · intro parsed
    obtain ⟨question, fragment, -⟩ := parse_ok (parseInMode_ok parsed)
    rw [splitOnce_absent question]
    exact ⟨by simpa using fragment, parsed⟩

theorem sameAuthority_iff {origin other : Origin} :
    origin.sameAuthority other = true ↔
      origin.scheme = other.scheme ∧ origin.host = other.host ∧ origin.port = other.port := by
  simp [Origin.sameAuthority, and_assoc]

/-- The URL is permitted under a policy that allows the origin alone. -/
def Permitted (origin : Origin) (url : List Char) : Prop :=
  ∃ mode, (⟨[origin], mode⟩ : OriginPolicy).permits url = true

/-- The origin is the one of a canonical URL. -/
def CanonicalOrigin (origin : Origin) : Prop :=
  ∃ url, isCanonicalOriginUrl url = true ∧ parse url = .ok origin

theorem permitted_iff {origin : Origin} {url : List Char} :
    Permitted origin url ↔ ∃ request, parse url = .ok request ∧
      origin.sameAuthority request = true ∧ pathWithin origin.path request.path = true := by
  constructor
  · intro ⟨mode, permitted⟩
    obtain ⟨request, parsed, allowed, member, inside⟩ := permits_iff.mp permitted
    rw [List.mem_singleton.mp member] at inside
    exact ⟨request, parseInMode_ok parsed, inside⟩
  · intro ⟨request, parsed, inside⟩
    exact ⟨.testLoopback, permits_iff.mpr ⟨request, parsed, origin, List.mem_cons_self, inside⟩⟩

theorem parse_canonical {url : List Char} {origin : Origin} (parsed : parse url = .ok origin) :
    CanonicalPath origin.path := by
  obtain ⟨-, -, rest, -, facts⟩ := parse_ok parsed
  exact facts.canonical

theorem pathWithin_refl {path : List Char} (canonical : CanonicalPath path) :
    pathWithin path path = true :=
  (pathWithin_iff canonical canonical).mpr List.prefix_rfl

theorem originsOverlap_iff {left right : Origin} {leftUrl rightUrl : List Char}
    (leftParsed : parse leftUrl = .ok left) (rightParsed : parse rightUrl = .ok right) :
    originsOverlap left right = true ↔ ∃ url, Permitted left url ∧ Permitted right url := by
  have leftPath := parse_canonical leftParsed
  have rightPath := parse_canonical rightParsed
  constructor
  · intro overlap
    rw [originsOverlap] at overlap
    split at overlap
    · cases overlap
    · rename_i same
      have same : left.sameAuthority right = true := by simpa using same
      have back : right.sameAuthority left = true := by
        obtain ⟨scheme, host, port⟩ := sameAuthority_iff.mp same
        exact sameAuthority_iff.mpr ⟨scheme.symm, host.symm, port.symm⟩
      rcases Bool.or_eq_true_iff.mp overlap with within | within
      · refine ⟨rightUrl, permitted_iff.mpr ⟨right, rightParsed, same, within⟩, ?_⟩
        exact permitted_iff.mpr ⟨right, rightParsed, sameAuthority_iff.mpr ⟨rfl, rfl, rfl⟩,
          pathWithin_refl rightPath⟩
      · refine ⟨leftUrl, ?_, permitted_iff.mpr ⟨left, leftParsed, back, within⟩⟩
        exact permitted_iff.mpr ⟨left, leftParsed, sameAuthority_iff.mpr ⟨rfl, rfl, rfl⟩,
          pathWithin_refl leftPath⟩
  · intro ⟨url, leftPermitted, rightPermitted⟩
    obtain ⟨request, parsed, leftSame, leftWithin⟩ := permitted_iff.mp leftPermitted
    obtain ⟨other, again, rightSame, rightWithin⟩ := permitted_iff.mp rightPermitted
    obtain rfl := Except.ok.inj (parsed.symm.trans again)
    have requestPath := parse_canonical parsed
    have same : left.sameAuthority right = true := by
      obtain ⟨scheme, host, port⟩ := sameAuthority_iff.mp leftSame
      obtain ⟨otherScheme, otherHost, otherPort⟩ := sameAuthority_iff.mp rightSame
      exact sameAuthority_iff.mpr ⟨scheme.trans otherScheme.symm, host.trans otherHost.symm,
        port.trans otherPort.symm⟩
    rw [originsOverlap, if_neg (by simp [same]), Bool.or_eq_true]
    have leftBegins := (pathWithin_iff leftPath requestPath).mp leftWithin
    have rightBegins := (pathWithin_iff rightPath requestPath).mp rightWithin
    rcases List.prefix_or_prefix_of_prefix leftBegins rightBegins with inside | inside
    · exact .inl ((pathWithin_iff leftPath rightPath).mpr inside)
    · exact .inr ((pathWithin_iff rightPath leftPath).mpr inside)

end Kvist.Galla
