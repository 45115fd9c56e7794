import Wadi.Http.Grammar
import Wadi.Http.StatusLine

/-!
`parseUri`. Behind the scheme the address is taken apart from its end: fragment, query, path and
user information are each split off at the first copy of the character that starts or ends them,
and the port at the first colon of what is left. Every address that is accepted has a normal
form that is parsed to the same parts.
-/

namespace Wadi.Http
open ByteText Runs

structure Uri where
  scheme : Bytes
  user : Bytes := []
  password : Bytes := []
  host : Bytes
  port : Bytes := []
  path : Bytes
  query : Bytes := []
  fragment : Bytes := []
  deriving DecidableEq, Repr

def isSchemeChar (c : UInt8) : Bool :=
  isAlphaChar c || isDigitChar c || c == 0x2B || c == 0x2D || c == 0x2E

def parseScheme : Bytes → Except HttpError (Bytes × Bytes)
  | [] => .error (.request .invalidScheme)
  | c :: i => do
      if !isAlphaChar c then .error (.request .invalidScheme)
      let scheme := c :: i.takeWhile isSchemeChar
      let i ← expect 0x3A (.request .invalidScheme) (i.dropWhile isSchemeChar)
      let i ← expect 0x2F (.request .invalidScheme) i
      let i ← expect 0x2F (.request .invalidScheme) i
      return (scheme, i)

/-- The part behind the first `c` is cut off, together with that `c`. -/
def splitOff (c : UInt8) (s : Bytes) : Bytes × Bytes := (cut [c] s).getD (s, [])

/-- The path keeps its first slash. -/
def splitPath (s : Bytes) : Bytes × Bytes :=
  match cut [0x2F] s with
  | some (authority, path) => (authority, 0x2F :: path)
  | none => (s, [0x2F])

def splitUser (authority : Bytes) : (Bytes × Bytes) × Bytes :=
  match cut [0x40] authority with
  | some (userinfo, host) => (splitOff 0x3A userinfo, host)
  | none => (([], []), authority)

def parseUri (s : Bytes) : Except HttpError Uri := do
  let (scheme, authority) ← parseScheme s
  let (authority, fragment) := splitOff 0x23 authority
  let (authority, query) := splitOff 0x3F authority
  let (authority, path) := splitPath authority
  let ((user, password), host) := splitUser authority
  let (host, port) := splitOff 0x3A host
  return ⟨scheme, user, password, host, port, path, query, fragment⟩

section
variable {c : UInt8} {s a b u p h part t : Bytes}

/-- The ways to write a part that is introduced by `c`: an empty part may be left out together
with the `c`. -/
def Tail (c : UInt8) (part t : Bytes) : Prop := t = c :: part ∨ (part = [] ∧ t = [])

theorem splitOff_eq : splitOff c s = (a, b) ↔ c ∉ a ∧ ∃ t, Tail c b t ∧ s = a ++ t := by
  rw [splitOff]
  constructor
  · intro h
    cases found : cut [c] s with
    | none =>
        rw [found] at h
        cases h
        exact ⟨cut_single_eq_none.mp found, [], Or.inr ⟨rfl, rfl⟩, by simp⟩
    | some parts =>
        rw [found] at h
        cases h
        exact ⟨not_mem_of_cut_single found, c :: b, Or.inl rfl, eq_of_cut found⟩
  · rintro ⟨absent, t, rfl | ⟨rfl, rfl⟩, rfl⟩
    · rw [cut_single absent]
      rfl
    · rw [List.append_nil, cut_single_eq_none.mpr absent]
      rfl

theorem splitPath_eq : splitPath s = (a, p) ↔ 0x2F ∉ a ∧ ∃ t, s = a ++ t ∧
    ((t = p ∧ p.head? = some 0x2F) ∨ (p = [0x2F] ∧ t = [])) := by
  rw [splitPath]
  constructor
  · intro h
    cases found : cut [0x2F] s with
    | none =>
        rw [found] at h
        cases h
        exact ⟨cut_single_eq_none.mp found, [], by simp, Or.inr ⟨rfl, rfl⟩⟩
    | some parts =>
        rw [found] at h
        cases h
        exact ⟨not_mem_of_cut_single found, _, eq_of_cut found, Or.inl ⟨rfl, rfl⟩⟩
  · rintro ⟨absent, t, rfl, ⟨rfl, slash⟩ | ⟨rfl, rfl⟩⟩
    · cases t with
      | nil => simp at slash
      | cons d t =>
          obtain rfl : d = 0x2F := by simpa using slash
          rw [cut_single absent]
    · rw [List.append_nil, cut_single_eq_none.mpr absent]

/-- What may stand in front of the host. -/
inductive UserPart (user password : Bytes) : Bytes → Prop where
  | absent (hu : user = []) (hp : password = []) : UserPart user password []
  | present {t : Bytes} (tail : Tail 0x3A password t) (colon : 0x3A ∉ user)
      (at_ : 0x40 ∉ user ++ t) : UserPart user password (user ++ t ++ [0x40])

theorem splitUser_eq : splitUser s = ((u, p), h) ↔
    ∃ front, UserPart u p front ∧ s = front ++ h ∧ (front = [] → 0x40 ∉ h) := by
  rw [splitUser]
  constructor
  · intro split
    cases found : cut [0x40] s with
    | none =>
        rw [found] at split
        cases split
        exact ⟨[], .absent rfl rfl, rfl, fun _ => cut_single_eq_none.mp found⟩
    | some parts =>
        obtain ⟨info, host⟩ := parts
        rw [found] at split
        obtain ⟨parts, rfl⟩ := Prod.mk.inj split
        obtain ⟨colon, t, tail, rfl⟩ := splitOff_eq.mp parts
        refine ⟨_, .present tail colon (not_mem_of_cut_single found), ?_, by simp⟩
        rw [eq_of_cut found]
        simp
  · rintro ⟨front, ⟨rfl, rfl⟩ | ⟨tail, colon, at_⟩, rfl, free⟩
    · rw [cut_single_eq_none.mpr (free rfl)]
    · rw [List.append_assoc, List.singleton_append, cut_single at_]
      simp only [splitOff_eq.mpr ⟨colon, _, tail, rfl⟩]

def IsScheme (scheme : Bytes) : Prop :=
  ∃ c cs, scheme = c :: cs ∧ isAlphaChar c = true ∧ ∀ x ∈ cs, isSchemeChar x = true

theorem parseScheme_eq_ok {scheme i : Bytes} :
    parseScheme s = .ok (scheme, i) ↔ IsScheme scheme ∧ s = scheme ++ (ascii "://" ++ i) := by
  constructor
  · intro parsed
    cases s with
    | nil => cases parsed
    | cons c s =>
        rw [parseScheme] at parsed
        cases alpha : isAlphaChar c with
        | false =>
            rw [alpha] at parsed
            cases parsed
        | true =>
            rw [alpha] at parsed
            obtain ⟨i₁, h₁, parsed⟩ := bind_eq_ok parsed
            obtain ⟨i₂, h₂, parsed⟩ := bind_eq_ok parsed
            obtain ⟨i₃, h₃, parsed⟩ := bind_eq_ok parsed
            obtain ⟨rfl, rfl⟩ := Prod.mk.inj (Except.ok.inj parsed)
            obtain rfl := expect_eq_ok.mp h₃
            obtain rfl := expect_eq_ok.mp h₂
            obtain ⟨split, chars, -⟩ := span_iff.mp ⟨rfl, expect_eq_ok.mp h₁⟩
            exact ⟨⟨c, _, rfl, alpha, chars⟩, congrArg (c :: ·) split⟩
  · rintro ⟨⟨c, cs, rfl, alpha, chars⟩, rfl⟩
    obtain ⟨run, rest⟩ := takeWhile_run (ascii "://" ++ i) chars
      (fun a ha => by
        obtain rfl : 0x3A = a := Option.some.inj ha
        decide)
    change parseScheme (c :: (cs ++ (ascii "://" ++ i))) = _
    rw [parseScheme, alpha, run, rest]
    rfl

end

/-- The parts of an address put together in one of the ways in which they can be written. Each
part is free of the characters at which the parts behind it are split off. -/
inductive Uri.SpelledBy (u : Uri) : Bytes → Prop where
  | intro {front portTail pathTail queryTail fragmentTail : Bytes} (scheme : IsScheme u.scheme)
      (user : UserPart u.user u.password front) (host : 0x3A ∉ u.host)
      (port : Tail 0x3A u.port portTail) (at_ : front = [] → 0x40 ∉ u.host ++ portTail)
      (path : (pathTail = u.path ∧ u.path.head? = some 0x2F) ∨ (u.path = [0x2F] ∧ pathTail = []))
      (query : Tail 0x3F u.query queryTail) (fragment : Tail 0x23 u.fragment fragmentTail)
      (slash : 0x2F ∉ front ++ (u.host ++ portTail))
      (mark : 0x3F ∉ front ++ (u.host ++ portTail) ++ pathTail)
      (hash : 0x23 ∉ front ++ (u.host ++ portTail) ++ pathTail ++ queryTail) :
      SpelledBy u (u.scheme ++ (ascii "://" ++
        (front ++ (u.host ++ portTail) ++ pathTail ++ queryTail ++ fragmentTail)))

theorem parseUri_eq_ok {s : Bytes} {u : Uri} : parseUri s = .ok u ↔ u.SpelledBy s := by
  constructor
  · intro parsed
    obtain ⟨⟨scheme, i⟩, split, behind⟩ := bind_eq_ok parsed
    obtain ⟨valid, rfl⟩ := parseScheme_eq_ok.mp split
    cases behindHash : splitOff 0x23 i with
    | mk authority fragment =>
        cases behindMark : splitOff 0x3F authority with
        | mk authority' query =>
            cases behindSlash : splitPath authority' with
            | mk authority'' path =>
                cases inFront : splitUser authority'' with
                | mk credentials host =>
                    cases behindColon : splitOff 0x3A host with
                    | mk host' port =>
                        simp only [behindHash, behindMark, behindSlash, inFront, behindColon]
                          at behind
                        obtain rfl := Except.ok.inj behind
                        obtain ⟨hash, fragmentTail, hFragment, rfl⟩ := splitOff_eq.mp behindHash
                        obtain ⟨mark, queryTail, hQuery, rfl⟩ := splitOff_eq.mp behindMark
                        obtain ⟨slash, pathTail, rfl, hPath⟩ := splitPath_eq.mp behindSlash
                        obtain ⟨front, hUser, rfl, at_⟩ := splitUser_eq.mp inFront
                        obtain ⟨colon, portTail, hPort, rfl⟩ := splitOff_eq.mp behindColon
                        exact .intro valid hUser colon hPort at_ hPath hQuery hFragment slash mark
                          hash
  · rintro ⟨scheme, user, host, port, at_, path, query, fragment, slash, mark, hash⟩
    rw [parseUri, parseScheme_eq_ok.mpr ⟨scheme, rfl⟩]
    have behindHash := splitOff_eq.mpr ⟨hash, _, fragment, rfl⟩
    have behindMark := splitOff_eq.mpr ⟨mark, _, query, rfl⟩
    have behindSlash := splitPath_eq.mpr ⟨slash, _, rfl, path⟩
    have inFront := splitUser_eq.mpr ⟨_, user, rfl, at_⟩
    have behindColon := splitOff_eq.mpr ⟨host, _, port, rfl⟩
    simp only [bind, Except.bind, behindHash, behindMark, behindSlash, inFront, behindColon]
    rfl

def tail (c : UInt8) (part : Bytes) : Bytes := if part = [] then [] else c :: part

/-- User information is needed for its own sake, and when an `@` would be taken for its end. -/
def Uri.front (u : Uri) : Bytes :=
  if u.user = [] ∧ u.password = [] ∧ 0x40 ∉ u.host ++ tail 0x3A u.port then []
  else u.user ++ tail 0x3A u.password ++ [0x40]

/-- The normal form of an address. -/
def Uri.text (u : Uri) : Bytes :=
  u.scheme ++ (ascii "://" ++ (u.front ++ (u.host ++ tail 0x3A u.port) ++ u.path ++
    tail 0x3F u.query ++ tail 0x23 u.fragment))

theorem tail_spec (c : UInt8) (part : Bytes) : Tail c part (tail c part) := by
  rw [tail]
  split
  next empty => exact Or.inr ⟨empty, rfl⟩
  next => exact Or.inl rfl

theorem tail_subset {c : UInt8} {part t : Bytes} (h : Tail c part t) : tail c part ⊆ t := by
  obtain rfl | ⟨rfl, rfl⟩ := h
  · rw [tail]
    split <;> simp
  · simp [tail]

theorem Uri.front_subset {u : Uri} {front portTail : Bytes}
    (user : UserPart u.user u.password front) (port : Tail 0x3A u.port portTail)
    (at_ : front = [] → 0x40 ∉ u.host ++ portTail) : u.front ⊆ front := by
  rw [Uri.front]
  split
  next => simp
  next needed =>
    cases user with
    | absent hu hp =>
        have free := at_ rfl
        refine absurd ⟨hu, hp, ?_⟩ needed
        rw [List.mem_append, not_or] at free ⊢
        exact ⟨free.1, fun mem => free.2 (tail_subset port mem)⟩
    | present t _ _ =>
        intro c mem
        simp only [List.mem_append] at mem ⊢
        obtain (inUser | inTail) | inEnd := mem
        · exact Or.inl (Or.inl inUser)
        · exact Or.inl (Or.inr (tail_subset t inTail))
        · exact Or.inr inEnd

theorem Uri.userPart_front {u : Uri} {front : Bytes}
    (user : UserPart u.user u.password front) : UserPart u.user u.password u.front := by
  rw [Uri.front]
  split
  next none_ => exact .absent none_.1 none_.2.1
  next needed =>
    refine .present (tail_spec _ _) ?_ ?_
    · cases user with
      | absent hu hp => simp [hu]
      | present _ colon _ => exact colon
    · cases user with
      | absent hu hp => simp [hu, hp, tail]
      | present t _ free =>
          rw [List.mem_append, not_or] at free ⊢
          exact ⟨free.1, fun mem => free.2 (tail_subset t mem)⟩

theorem Uri.at_front {u : Uri} (h : u.front = []) : 0x40 ∉ u.host ++ tail 0x3A u.port := by
  rw [Uri.front] at h
  split at h
  next none_ => exact none_.2.2
  next => simp at h

theorem Uri.SpelledBy.text {u : Uri} {s : Bytes} (h : u.SpelledBy s) : u.SpelledBy u.text := by
  obtain ⟨scheme, user, host, port, at_, path, query, fragment, slash, mark, hash⟩ := h
  have fewer := Uri.front_subset user port at_
  have rooted : u.path.head? = some 0x2F := by
    obtain ⟨-, slashed⟩ | ⟨root, -⟩ := path
    · exact slashed
    · simp [root]
  -- a character that none of the written parts has is in none of the normal ones
  have outside {c : UInt8} {pathTail : Bytes} (written : c ∉ pathTail)
      (paths : (pathTail = u.path ∧ u.path.head? = some 0x2F) ∨ (u.path = [0x2F] ∧ pathTail = []))
      (other : c ≠ 0x2F) : c ∉ u.path := by
    obtain ⟨rfl, -⟩ | ⟨root, -⟩ := paths
    · exact written
    · simp [root, other]
  simp only [List.mem_append, not_or] at slash mark hash
  refine .intro scheme (Uri.userPart_front user) host (tail_spec _ _) Uri.at_front
    (Or.inl ⟨rfl, rooted⟩) (tail_spec _ _) (tail_spec _ _) ?_ ?_ ?_
  · simp only [List.mem_append, not_or]
    exact ⟨fun m => slash.1 (fewer m), slash.2.1, fun m => slash.2.2 (tail_subset port m)⟩
  · simp only [List.mem_append, not_or]
    exact ⟨⟨fun m => mark.1.1 (fewer m), mark.1.2.1, fun m => mark.1.2.2 (tail_subset port m)⟩,
      outside mark.2 path (by decide)⟩
  · simp only [List.mem_append, not_or]
    exact ⟨⟨⟨fun m => hash.1.1.1 (fewer m), hash.1.1.2.1,
      fun m => hash.1.1.2.2 (tail_subset port m)⟩, outside hash.1.2 path (by decide)⟩,
      fun m => hash.2 (tail_subset query m)⟩

/-- The addresses that can be given are those whose normal form is read back. -/
theorem parseUri_text_iff (u : Uri) : (∃ s, parseUri s = .ok u) ↔ parseUri u.text = .ok u := by
  constructor
  · rintro ⟨s, parsed⟩
    exact parseUri_eq_ok.mpr (parseUri_eq_ok.mp parsed).text
  · intro parsed
    exact ⟨u.text, parsed⟩

end Wadi.Http
