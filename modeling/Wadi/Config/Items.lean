import Wadi.Config.WadiConfig

/-!
Command lines written down item by item: tokens on their own, options with a value, and
flags. Reading the tokens of such a line gives back its items, the last one of each key,
and the configuration depends only on the order of the tokens on their own and of the
items with equal keys.
-/

namespace Wadi
open SizeString

inductive Item where
  | positional (token : Str)
  | option (key value : Str)
  | flag (key : Str)
  deriving DecidableEq, Repr

namespace Item

def tokens : Item → List Str
  | positional token => [token]
  | option key value => ['-' :: key, value]
  | flag key => ['-' :: key]

def positional? : Item → Option Str
  | positional token => some token
  | _ => none

def binding? : Item → Option (Str × Str)
  | positional _ => none
  | option key value => some (key, value)
  | flag key => some (key, "true".toList)

def hasKey (key : Str) (item : Item) : Bool := item.binding?.any (·.1 == key)

end Item

/-- A token on its own and a value are no options, and a flag has an option or a flag
right behind it. -/
def WellFormed : List Item → Prop
  | [] => True
  | .positional token :: items => isOption token = false ∧ WellFormed items
  | .option _ value :: items => isOption value = false ∧ WellFormed items
  | .flag _ :: items => (∃ next ∈ items.head?, next.binding?.isSome = true) ∧ WellFormed items

def flatten (items : List Item) : List Str := items.flatMap Item.tokens

/-- What the last item with a key sets it to. -/
def lastValue (key : Str) (items : List Item) : Option Str :=
  ((items.filterMap Item.binding?).filter (·.1 == key)).getLast?.map Prod.snd

def positionals (items : List Item) : List Str := items.filterMap Item.positional?

/-- The configuration that the items ask for: the first token on its own is the address, and
the last item of a key decides about its field. -/
def itemsConfig (items : List Item) : WadiConfig where
  whipEndpoint := (positionals items).head?.getD "http://localhost:8889/wadi/whip".toList
  videoDevice := (lastValue "d".toList items).getD "0".toList
  captureConfig := {
    width := WadiConfig.number (lastValue "w".toList items) 1280
    height := WadiConfig.number (lastValue "h".toList items) 720
    fps := WadiConfig.number (lastValue "r".toList items) 30
    fourcc := WadiConfig.code (lastValue "c".toList items) ⟨0x49, 0x34, 0x32, 0x30⟩ }

theorem lastValue_binding {item : Item} {k v : Str} (h : item.binding? = some (k, v))
    (key : Str) (items : List Item) :
    lastValue key (item :: items) =
      (lastValue key items).or (if k = key then some v else none) := by
  rw [lastValue, lastValue, List.filterMap_cons_some h]
  by_cases same : k = key
  · rw [List.filter_cons_of_pos (by simp [same]), List.getLast?_cons, if_pos same]
    cases ((items.filterMap Item.binding?).filter (·.1 == key)).getLast? <;> rfl
  · rw [List.filter_cons_of_neg (by simp [same]), if_neg same, Option.or_none]

theorem lastValue_congr {key : Str} {items items' : List Item}
    (h : items.filter (Item.hasKey key) = items'.filter (Item.hasKey key)) :
    lastValue key items = lastValue key items' := by
  have own (items : List Item) : (items.filterMap Item.binding?).filter (·.1 == key) =
      (items.filter (Item.hasKey key)).filterMap Item.binding? := by
    rw [List.filterMap_filter, List.filter_filterMap]
    congr 1
    funext item
    cases item <;> simp [Item.hasKey, Item.binding?, Option.filter]
  rw [lastValue, lastValue, own, own, h]

theorem flatten_of_binding {next : Item} {items : List Item} (head : next ∈ items.head?)
    (named : next.binding?.isSome = true) :
    ∃ key rest, flatten items = ('-' :: key) :: rest := by
  obtain ⟨items, rfl⟩ := List.head?_eq_some_iff.mp head
  cases next with
  | positional token => cases named
  | option k v => exact ⟨k, v :: flatten items, rfl⟩
  | flag k => exact ⟨k, flatten items, rfl⟩

theorem parseFrom_flatten {items : List Item} (wf : WellFormed items) (args : ParsedArgs) :
    (parseFrom args (flatten items)).positional = args.positional ++ positionals items ∧
    ∀ key, (parseFrom args (flatten items)).named.lookup key =
      (lastValue key items).or (args.named.lookup key) := by
  induction items generalizing args with
  | nil => exact ⟨(List.append_nil _).symm, fun _ => rfl⟩
  | cons item items ih =>
      cases item with
      | positional token =>
          obtain ⟨single, wf⟩ := wf
          obtain ⟨order, read⟩ := ih wf { args with positional := args.positional ++ [token] }
          have step : parseFrom args (flatten (.positional token :: items)) =
              parseFrom { args with positional := args.positional ++ [token] } (flatten items) :=
            parseFrom_positional args (flatten items) single
          rw [step, order, List.append_assoc]
          exact ⟨rfl, read⟩
      | option k v =>
          obtain ⟨single, wf⟩ := wf
          obtain ⟨order, read⟩ := ih wf { args with named := args.named.insert k v }
          have step : parseFrom args (flatten (.option k v :: items)) =
              parseFrom { args with named := args.named.insert k v } (flatten items) :=
            parseFrom_option args k (flatten items) single
          rw [step, order]
          refine ⟨rfl, fun key => ?_⟩
          rw [read, lookup_insert_or, lastValue_binding rfl]
      | flag k =>
          obtain ⟨⟨next, head, named⟩, wf⟩ := wf
          obtain ⟨order, read⟩ := ih wf { args with named := args.named.insert k "true".toList }
          -- the flag is closed by the option token that comes next, which is read again
          obtain ⟨other, rest, more⟩ := flatten_of_binding head named
          have step : parseFrom args (flatten (.flag k :: items)) =
              parseFrom { args with named := args.named.insert k "true".toList }
                (flatten items) := by
            rw [more]
            exact more ▸ parseFrom_flag args k rest (isOption_cons other)
          rw [step, order]
          refine ⟨rfl, fun key => ?_⟩
          rw [read, lookup_insert_or, lastValue_binding rfl]

theorem parseArgs_flatten {items : List Item} (wf : WellFormed items) (program : Str) :
    (parseArgs (program :: flatten items)).positional = positionals items ∧
      ∀ key, (parseArgs (program :: flatten items)).named.lookup key = lastValue key items := by
  obtain ⟨order, named⟩ := parseFrom_flatten wf {}
  refine ⟨order, fun key => (named key).trans ?_⟩
  rw [Finmap.lookup_empty, Option.or_none]

theorem fromArgs_flatten {items : List Item} (wf : WellFormed items) (program : Str) :
    WadiConfig.fromArgs (program :: flatten items) = itemsConfig items := by
  obtain ⟨order, named⟩ := parseArgs_flatten wf program
  simp only [WadiConfig.fromArgs, WadiConfig.override, order, named]
  rfl

theorem itemsConfig_congr {items items' : List Item}
    (order : positionals items = positionals items')
    (own : ∀ key, items.filter (Item.hasKey key) = items'.filter (Item.hasKey key)) :
    itemsConfig items = itemsConfig items' := by
  simp only [itemsConfig, order, fun key => lastValue_congr (own key)]

/-- The tokens of a well-formed line are read back as its items and give the configuration
these ask for, and lines that differ only in how their items are interleaved give the same
configuration. -/
theorem items_readBack {items : List Item} (wf : WellFormed items) :
    (∀ program, (parseArgs (program :: flatten items)).positional = positionals items ∧
      (∀ key, (parseArgs (program :: flatten items)).named.lookup key = lastValue key items) ∧
      WadiConfig.fromArgs (program :: flatten items) = itemsConfig items) ∧
    ∀ items', WellFormed items' → positionals items = positionals items' →
      (∀ key, items.filter (Item.hasKey key) = items'.filter (Item.hasKey key)) →
      ∀ program program', WadiConfig.fromArgs (program :: flatten items) =
        WadiConfig.fromArgs (program' :: flatten items') := by
  constructor
  · intro program
    obtain ⟨order, named⟩ := parseArgs_flatten wf program
    exact ⟨order, named, fromArgs_flatten wf program⟩
  · intro items' wf' order own program program'
    rw [fromArgs_flatten wf, fromArgs_flatten wf', itemsConfig_congr order own]

theorem interleaved_same :
    WadiConfig.fromArgs
        ["wadi".toList, "-w".toList, "640".toList, "http://h/whip".toList, "-x".toList,
          "-w".toList, "320".toList] =
      WadiConfig.fromArgs
        ["wadi".toList, "-x".toList, "-w".toList, "640".toList, "-w".toList, "320".toList,
          "http://h/whip".toList] := by
  have wf : WellFormed [.option "w".toList "640".toList, .positional "http://h/whip".toList,
      .flag "x".toList, .option "w".toList "320".toList] := by
    exact ⟨by decide, by decide, ⟨_, rfl, rfl⟩, by decide, trivial⟩
  have wf' : WellFormed [.flag "x".toList, .option "w".toList "640".toList,
      .option "w".toList "320".toList, .positional "http://h/whip".toList] := by
    exact ⟨⟨_, rfl, rfl⟩, by decide, by decide, by decide, trivial⟩
  refine (items_readBack wf).2 _ wf' rfl (fun key => ?_) _ _
  obtain rfl | other := eq_or_ne key "w".toList
  · decide
  · have w : ("w".toList == key) = false := beq_false_of_ne other.symm
    simp only [List.filter, Item.hasKey, Item.binding?, Option.any_some, Option.any_none, w]

end Wadi
