import Mathlib.Data.Finmap
import Wadi.Library.SizeString

/-!
The command line as `parse_args` reads it.

The loop remembers the key of an option until it sees the next token, which is the value
of the option unless it is an option itself. One token can thus close an option and open
the next. What the loop leaves in the map is said here without the loop: `argument` looks
a key up in the tokens, where each option token stands in front of the token that gives
it its value and the last such pair decides.
-/

namespace Wadi
open SizeString

structure ParsedArgs where
  named : Finmap (fun _ : Str => Str) := ∅
  positional : List Str := []

/-- `token[0] == '-'`; the first character of an empty token is the final NUL. -/
def isOption (token : Str) : Bool := token.head? == some '-'

/-- The value an option has when `token` comes after it. -/
def optionValue (token : Str) : Str := if isOption token then "true".toList else token

structure ParseState where
  args : ParsedArgs := {}
  key : Option Str := none

def parseToken (st : ParseState) (token : Str) : ParseState :=
  -- a pending key gets its value before the token is looked at for itself
  let args := match st.key with
    | some key => { st.args with named := st.args.named.insert key (optionValue token) }
    | none => st.args
  if isOption token then { args := args, key := some (token.drop 1) }
  else if st.key.isNone then
    { args := { args with positional := args.positional ++ [token] }, key := none }
  else { args := args, key := none }

def parseArgs (argv : List Str) : ParsedArgs := ((argv.drop 1).foldl parseToken {}).args

/-- The value of a key: that of the last option token with this key that has a token
behind it. -/
def argument (key : Str) : List Str → Option Str
  | token :: next :: rest =>
      (argument key (next :: rest)).or
        (if token = '-' :: key then some (optionValue next) else none)
  | _ => none

theorem isOption_iff {token : Str} : isOption token = true ↔ ∃ key, token = '-' :: key := by
  cases token with
  | nil => simp [isOption]
  | cons c s => simp [isOption]

theorem isOption_cons (key : Str) : isOption ('-' :: key) = true := isOption_iff.mpr ⟨key, rfl⟩

/-- The tokens read by the loop from a state without a pending key. -/
def parseFrom (args : ParsedArgs) (tokens : List Str) : ParsedArgs :=
  (tokens.foldl parseToken { args := args }).args

section
variable (args : ParsedArgs) {token : Str} (key : Str) (tokens : List Str)

theorem parseFrom_positional (h : isOption token = false) :
    parseFrom args (token :: tokens) =
      parseFrom { args with positional := args.positional ++ [token] } tokens := by
  simp [parseFrom, parseToken, h]

theorem parseFrom_unfinished : parseFrom args ['-' :: key] = args := by
  simp [parseFrom, parseToken, isOption_cons]

theorem parseFrom_flag (h : isOption token = true) :
    parseFrom args (('-' :: key) :: token :: tokens) =
      parseFrom { args with named := args.named.insert key "true".toList } (token :: tokens) := by
  simp [parseFrom, parseToken, isOption_cons, h, optionValue]

theorem parseFrom_option (h : isOption token = false) :
    parseFrom args (('-' :: key) :: token :: tokens) =
      parseFrom { args with named := args.named.insert key token } tokens := by
  simp [parseFrom, parseToken, isOption_cons, h, optionValue]

end

/-- Induction along the loop: one case for each way in which it goes on. -/
theorem tokens_induction {motive : List Str → Prop} (nil : motive [])
    (positional : ∀ token rest, isOption token = false → motive rest → motive (token :: rest))
    (unfinished : ∀ key, motive ['-' :: key])
    (flag : ∀ key token rest, isOption token = true → motive (token :: rest) →
      motive (('-' :: key) :: token :: rest))
    (option : ∀ key token rest, isOption token = false → motive rest →
      motive (('-' :: key) :: token :: rest)) (tokens : List Str) : motive tokens := by
  -- by the number of tokens, since an option takes the token behind it along
  induction h : tokens.length using Nat.strong_induction_on generalizing tokens with
  | _ n ih =>
      subst h
      cases tokens with
      | nil => exact nil
      | cons first rest =>
          cases opens : isOption first with
          | false => exact positional first rest opens (ih rest.length (by simp) rest rfl)
          | true =>
              obtain ⟨key, rfl⟩ := isOption_iff.mp opens
              cases rest with
              | nil => exact unfinished key
              | cons token rest =>
                  cases again : isOption token with
                  | true =>
                      exact flag key token rest again (ih _ (by simp) (token :: rest) rfl)
                  | false =>
                      have shorter : rest.length < (('-' :: key) :: token :: rest).length := by
                        simp only [List.length_cons]
                        omega
                      exact option key token rest again (ih _ shorter rest rfl)

theorem argument_cons_of_not_option {token : Str} (h : isOption token = false) (key : Str)
    (tokens : List Str) : argument key (token :: tokens) = argument key tokens := by
  have other : token ≠ '-' :: key := by
    rintro rfl
    rw [isOption_cons] at h
    cases h
  cases tokens with
  | nil => rfl
  | cons next rest => simp [argument, other]

theorem lookup_insert_or (named : Finmap (fun _ : Str => Str)) (found : Option Str)
    (key other value : Str) :
    found.or ((named.insert key value).lookup other) =
      (found.or (if key = other then some value else none)).or (named.lookup other) := by
  by_cases same : key = other
  · subst same
    cases found <;> simp
  · have ne : other ≠ key := fun h => same h.symm
    cases found <;> simp [Finmap.lookup_insert_of_ne _ ne, same]

theorem argument_option (key other next : Str) (rest : List Str) :
    argument other (('-' :: key) :: next :: rest) =
      (argument other (next :: rest)).or
        (if key = other then some (optionValue next) else none) := by
  rw [argument]
  simp only [List.cons.injEq, true_and]

/-- What the loop leaves in the map is what the tokens say, before what was there. -/
theorem lookup_parseFrom (key : Str) (tokens : List Str) (args : ParsedArgs) :
    (parseFrom args tokens).named.lookup key =
      (argument key tokens).or (args.named.lookup key) := by
  induction tokens using tokens_induction generalizing args with
  | nil => rfl
  | positional token rest h ih =>
      rw [parseFrom_positional args rest h, ih, argument_cons_of_not_option h]
  | unfinished k => rw [parseFrom_unfinished]; rfl
  | flag k token rest h ih =>
      have value : optionValue token = "true".toList := if_pos h
      rw [parseFrom_flag args k rest h, ih, lookup_insert_or, argument_option, value]
  | option k token rest h ih =>
      have value : optionValue token = token := if_neg (by simp [h])
      rw [parseFrom_option args k rest h, ih, lookup_insert_or, argument_option, value,
        argument_cons_of_not_option h]

theorem lookup_parseArgs (argv : List Str) (key : Str) :
    (parseArgs argv).named.lookup key = argument key (argv.drop 1) := by
  have read : (parseArgs argv).named.lookup key = _ := lookup_parseFrom key (argv.drop 1) {}
  rw [read, Finmap.lookup_empty, Option.or_none]

theorem argument_cons_of_some {key value : Str} {tokens : List Str} (token : Str)
    (h : argument key tokens = some value) : argument key (token :: tokens) = some value := by
  cases tokens with
  | nil => cases h
  | cons next rest => rw [argument, h, Option.some_or]

theorem argument_eq_none_iff {key : Str} {tokens : List Str} :
    argument key tokens = none ↔ ('-' :: key) ∉ tokens.dropLast := by
  induction tokens with
  | nil => simp [argument]
  | cons token tokens ih =>
      cases tokens with
      | nil => simp [argument]
      | cons next rest =>
          rw [argument, Option.or_eq_none_iff, ih, List.dropLast_cons_cons, List.mem_cons, not_or,
            and_comm]
          simp [eq_comm]

theorem argument_eq_some_iff {key value : Str} {tokens : List Str} :
    argument key tokens = some value ↔ ∃ before next after,
      tokens = before ++ ('-' :: key) :: next :: after ∧
      ('-' :: key) ∉ (next :: after).dropLast ∧ value = optionValue next := by
  constructor
  · intro found
    induction tokens with
    | nil => cases found
    | cons token tokens ih =>
        cases tokens with
        | nil => cases found
        | cons next rest =>
            rw [argument, Option.or_eq_some_iff] at found
            obtain later | ⟨none, here⟩ := found
            · obtain ⟨before, u, after, split, only, rfl⟩ := ih later
              exact ⟨token :: before, u, after, by rw [split]; rfl, only, rfl⟩
            · split at here
              next same =>
                  obtain rfl := Option.some.inj here
                  exact ⟨[], next, rest, by rw [same]; rfl, argument_eq_none_iff.mp none, rfl⟩
              next => cases here
  · rintro ⟨before, next, after, rfl, only, rfl⟩
    induction before with
    | nil => simp [argument, argument_eq_none_iff.mpr only]
    | cons token before ih => exact argument_cons_of_some token ih

/-- No option token is lost: the keys are those of the option tokens, and an option whose
last occurrence has no value of its own is set. -/
structure OptionsKept (argv : List Str) : Prop where
  keys : ∀ key, key ∈ (parseArgs argv).named ↔
    ∃ token ∈ argv.drop 1, isOption token = true ∧ token.drop 1 = key
  unvalued : ∀ before key after, argv.drop 1 = before ++ ('-' :: key) :: after →
    ('-' :: key) ∉ after → (∀ next ∈ after.head?, isOption next = true) →
    (parseArgs argv).named.lookup key = some "true".toList

/-- A last token that is an option occurs earlier too, and the last time it does, the token
behind it is an option or the word `true`. -/
def LastOptionRepeated (tokens : List Str) : Prop :=
  ∀ before key, tokens = before ++ ['-' :: key] → ∃ earlier next after,
    tokens = earlier ++ ('-' :: key) :: next :: after ∧ ('-' :: key) ∉ (next :: after).dropLast ∧
      (isOption next = true ∨ next = "true".toList)

theorem optionValue_eq_true_iff (token : Str) :
    "true".toList = optionValue token ↔ isOption token = true ∨ token = "true".toList := by
  rw [optionValue]
  split
  next set => simp [set]
  next clear => simp [clear, eq_comm]

theorem exists_option_iff {tokens : List Str} {key : Str} :
    (∃ token ∈ tokens, isOption token = true ∧ token.drop 1 = key) ↔ ('-' :: key) ∈ tokens := by
  constructor
  · rintro ⟨token, mem, opens, rfl⟩
    obtain ⟨key, rfl⟩ := isOption_iff.mp opens
    exact mem
  · intro mem
    exact ⟨_, mem, isOption_cons key, rfl⟩

theorem mem_parseArgs_iff (argv : List Str) (key : Str) :
    key ∈ (parseArgs argv).named ↔ ('-' :: key) ∈ (argv.drop 1).dropLast := by
  rw [← Finmap.lookup_isSome, lookup_parseArgs, Option.isSome_iff_ne_none, Ne,
    argument_eq_none_iff, not_not]

theorem OptionsKept.lastOptionRepeated {argv : List Str} (kept : OptionsKept argv) :
    LastOptionRepeated (argv.drop 1) := by
  intro before key split
  have value := kept.unvalued before key [] split (by simp) (by simp)
  rw [lookup_parseArgs] at value
  obtain ⟨earlier, next, after, found, only, isTrue⟩ := argument_eq_some_iff.mp value
  exact ⟨earlier, next, after, found, only, (optionValue_eq_true_iff next).mp isTrue⟩

theorem LastOptionRepeated.optionsKept {argv : List Str}
    (repeated : LastOptionRepeated (argv.drop 1)) : OptionsKept argv where
  keys key := by
    rw [mem_parseArgs_iff, exists_option_iff]
    refine ⟨List.mem_of_mem_dropLast, fun mem => ?_⟩
    obtain none | ⟨before, last, split⟩ := List.eq_nil_or_concat (argv.drop 1)
    · rw [none] at mem
      cases mem
    · rw [List.concat_eq_append] at split
      rw [split, List.mem_append, List.mem_singleton] at mem
      obtain mem | rfl := mem
      · rw [split, List.dropLast_concat]
        exact mem
      · obtain ⟨earlier, next, after, found, -⟩ := repeated before key split
        rw [found]
        simp [List.dropLast_append_of_ne_nil]
  unvalued before key after split only opens := by
    rw [lookup_parseArgs, argument_eq_some_iff]
    cases after with
    | nil =>
        obtain ⟨earlier, next, after, found, last, isTrue⟩ := repeated before key split
        exact ⟨earlier, next, after, found, last, (optionValue_eq_true_iff next).mpr isTrue⟩
    | cons next after =>
        refine ⟨before, next, after, split, fun mem => only (List.mem_of_mem_dropLast mem), ?_⟩
        exact (optionValue_eq_true_iff next).mpr (Or.inl (opens next rfl))

theorem optionsKept_iff (argv : List Str) :
    OptionsKept argv ↔ LastOptionRepeated (argv.drop 1) :=
  ⟨OptionsKept.lastOptionRepeated, LastOptionRepeated.optionsKept⟩

/-- A flag at the end of the command line leaves no trace. -/
theorem lastFlag_lost :
    "v".toList ∉ (parseArgs ["wadi".toList, "-v".toList]).named ∧
      ¬ OptionsKept ["wadi".toList, "-v".toList] := by
  have lost : "v".toList ∉ (parseArgs ["wadi".toList, "-v".toList]).named := by
    rw [mem_parseArgs_iff]
    decide
  refine ⟨lost, fun kept => lost ((kept.keys _).mpr ?_)⟩
  exact ⟨"-v".toList, by decide, by decide, by decide⟩

end Wadi
