import SequenceDiagram.CommandLine.Options

set_option autoImplicit false

/-!
# The grammar of the command line

A command line is a command with a file and options behind it, in any order. A command offers some
options, and no two items are of one kind. What follows `--config` is its value, also when it looks
like an option. Exactly these command lines are read, and what is read records every item, so the
order of the items does not matter.
-/
namespace SequenceDiagram.CommandLine

inductive Verb
  | fmt
  | check
  | layout
deriving DecidableEq, Repr

namespace Verb

def word : Verb → String
  | .fmt => "fmt"
  | .check => "check"
  | .layout => "layout"

def bare : Verb → Command
  | .fmt => .fmt false
  | .check => .check
  | .layout => .layout none false

end Verb

inductive Item
  | file (name : String)
  | check
  | config (value : String)
  | pretty
deriving DecidableEq, Repr

namespace Item

inductive Kind
  | file
  | check
  | config
  | pretty
deriving DecidableEq, Repr

def kind : Item → Kind
  | .file _ => .file
  | .check => .check
  | .config _ => .config
  | .pretty => .pretty

def arguments : Item → List String
  | .file name => [name]
  | .check => ["--check"]
  | .config value => ["--config", value]
  | .pretty => ["--pretty"]

end Item

def Item.IsPlain : Item → Prop
  | .file name => isOption name = false
  | .check | .config _ | .pretty => True

def Verb.offers : Verb → Item.Kind → Bool
  | _, .file => true
  | .fmt, .check => true
  | .layout, .config => true
  | .layout, .pretty => true
  | _, _ => false

structure Line where
  verb : Verb
  items : List Item
deriving DecidableEq, Repr

def Line.arguments (line : Line) : List String :=
  line.verb.word :: line.items.flatMap Item.arguments

structure Line.IsValid (line : Line) : Prop where
  offered : ∀ item ∈ line.items, line.verb.offers item.kind = true
  plain : ∀ item ∈ line.items, item.IsPlain
  once : (line.items.map Item.kind).Nodup

def Command.verb : Command → Verb
  | .fmt _ => .fmt
  | .check => .check
  | .layout _ _ => .layout

namespace Options

def Has (options : Options) : Item → Prop
  | .file name => options.input = some name
  | .check => options.command = .fmt true
  | .config value => ∃ pretty, options.command = .layout (some value) pretty
  | .pretty => ∃ config, options.command = .layout config true

/-- The command and the items of a line, and nothing else. -/
structure Records (options : Options) (line : Line) : Prop where
  verb : options.command.verb = line.verb
  items : ∀ item, options.Has item ↔ item ∈ line.items

theorem eq_of_has {a b : Options} (verb : a.command.verb = b.command.verb)
    (items : ∀ item, a.Has item ↔ b.Has item) : a = b := by
  obtain ⟨command, input⟩ := a
  obtain ⟨command', input'⟩ := b
  have files : input = input' := Option.ext fun name => items (.file name)
  have commands : command = command' := by
    cases command with
    | fmt check =>
      cases command' with
      | fmt check' =>
        have same : check = true ↔ check' = true := by simpa [Has] using items .check
        rw [Bool.eq_iff_iff.2 same]
      | _ => contradiction
    | check =>
      cases command' with
      | check => rfl
      | _ => contradiction
    | layout config pretty =>
      cases command' with
      | layout config' pretty' =>
        have values (value : String) : config = some value ↔ config' = some value := by
          simpa [Has] using items (.config value)
        have same : pretty = true ↔ pretty' = true := by simpa [Has] using items .pretty
        rw [Option.ext values, Bool.eq_iff_iff.2 same]
      | _ => contradiction
  rw [commands, files]

def add? (options : Options) : Item → Option Options
  | .file name => options.withInput? name
  | .check =>
    match options.command with
    | .fmt false => some { options with command := .fmt true }
    | _ => none
  | .config value =>
    match options.command with
    | .layout none pretty => some { options with command := .layout (some value) pretty }
    | _ => none
  | .pretty =>
    match options.command with
    | .layout config false => some { options with command := .layout config true }
    | _ => none

theorem readRest?_plain {name : String} (plain : isOption name = false) (options : Options)
    (rest : List String) :
    options.readRest? (name :: rest) = (options.withInput? name).bind (readRest? · rest) := by
  have other (option : String) (dash : isOption option = true) : name = option → False := by
    rintro rfl
    rw [plain] at dash
    contradiction
  rw [readRest?, if_neg (by simp [plain])]
  · cases options.withInput? name <;> rfl
  · exact other "--check" rfl
  · exact other "--config" rfl
  · exact other "--pretty" rfl

theorem readRest?_item {item : Item} (plain : item.IsPlain) (options : Options)
    (rest : List String) :
    options.readRest? (item.arguments ++ rest) = (options.add? item).bind (readRest? · rest) := by
  obtain ⟨command, input⟩ := options
  cases item with
  | file name => exact readRest?_plain plain _ rest
  | check =>
    cases command with
    | fmt check => cases check <;> rfl
    | _ => rfl
  | config value =>
    cases command with
    | layout config pretty => cases config <;> rfl
    | _ => rfl
  | pretty =>
    cases command with
    | layout config pretty => cases pretty <;> rfl
    | _ => rfl

theorem readRest?_items {items : List Item} (plain : ∀ item ∈ items, item.IsPlain)
    (options : Options) :
    options.readRest? (items.flatMap Item.arguments) = items.foldlM add? options := by
  induction items generalizing options with
  | nil => rfl
  | cons item items ih =>
    obtain ⟨first, later⟩ := List.forall_mem_cons.1 plain
    rw [List.flatMap_cons, readRest?_item first, List.foldlM_cons]
    exact congrArg _ (funext fun next => ih later next)

theorem exists_items {options final : Options} {arguments : List String}
    (read : options.readRest? arguments = some final) :
    ∃ items : List Item, items.flatMap Item.arguments = arguments ∧
      ∀ item ∈ items, item.IsPlain := by
  fun_induction readRest? options arguments with
  | case1 => exact ⟨[], rfl, nofun⟩
  | case2 options rest _ ih =>
    obtain ⟨items, rfl, plain⟩ := ih read
    exact ⟨.check :: items, rfl, List.forall_mem_cons.2 ⟨trivial, plain⟩⟩
  | case6 options pretty value rest _ ih =>
    obtain ⟨items, rfl, plain⟩ := ih read
    exact ⟨.config value :: items, rfl, List.forall_mem_cons.2 ⟨trivial, plain⟩⟩
  | case8 options rest config _ ih =>
    obtain ⟨items, rfl, plain⟩ := ih read
    exact ⟨.pretty :: items, rfl, List.forall_mem_cons.2 ⟨trivial, plain⟩⟩
  | case13 options name rest _ _ _ dash next _ ih =>
    obtain ⟨items, rfl, plain⟩ := ih read
    exact ⟨.file name :: items, rfl, List.forall_mem_cons.2 ⟨eq_false_of_ne_true dash, plain⟩⟩
  | _ => contradiction

def IsFree (options : Options) (kind : Item.Kind) : Prop :=
  ∀ item, options.Has item → item.kind ≠ kind

theorem exists_add? {options : Options} {item : Item}
    (offered : options.command.verb.offers item.kind = true) (free : options.IsFree item.kind) :
    ∃ next, options.add? item = some next := by
  obtain ⟨command, input⟩ := options
  cases item with
  | file name =>
    cases input with
    | none => exact ⟨_, rfl⟩
    | some other => exact absurd rfl (free (.file other) rfl)
  | check =>
    cases command with
    | fmt check =>
      cases check with
      | false => exact ⟨_, rfl⟩
      | true => exact absurd rfl (free .check rfl)
    | _ => contradiction
  | config value =>
    cases command with
    | layout config pretty =>
      cases config with
      | none => exact ⟨_, rfl⟩
      | some other => exact absurd rfl (free (.config other) ⟨pretty, rfl⟩)
    | _ => contradiction
  | pretty =>
    cases command with
    | layout config pretty =>
      cases pretty with
      | false => exact ⟨_, rfl⟩
      | true => exact absurd rfl (free .pretty ⟨config, rfl⟩)
    | _ => contradiction

inductive Adds : Options → Item → Options → Prop
  | file (command : Command) (name : String) :
    Adds ⟨command, none⟩ (.file name) ⟨command, some name⟩
  | check (input : Option String) : Adds ⟨.fmt false, input⟩ .check ⟨.fmt true, input⟩
  | config (value : String) (pretty : Bool) (input : Option String) :
    Adds ⟨.layout none pretty, input⟩ (.config value) ⟨.layout (some value) pretty, input⟩
  | pretty (config input : Option String) :
    Adds ⟨.layout config false, input⟩ .pretty ⟨.layout config true, input⟩

theorem adds_of_add? {options next : Options} {item : Item}
    (added : options.add? item = some next) : Adds options item next := by
  obtain ⟨command, input⟩ := options
  cases item with
  | file name =>
    cases input with
    | none => exact Option.some.inj added ▸ .file command name
    | some other => contradiction
  | check =>
    cases command with
    | fmt check =>
      cases check with
      | false => exact Option.some.inj added ▸ .check input
      | true => contradiction
    | _ => contradiction
  | config value =>
    cases command with
    | layout config pretty =>
      cases config with
      | none => exact Option.some.inj added ▸ .config value pretty input
      | some other => contradiction
    | _ => contradiction
  | pretty =>
    cases command with
    | layout config pretty =>
      cases pretty with
      | false => exact Option.some.inj added ▸ .pretty config input
      | true => contradiction
    | _ => contradiction

theorem Adds.isFree {options next : Options} {item : Item} (adds : Adds options item next) :
    options.IsFree item.kind := by
  intro other has
  cases adds <;> cases other <;> simp [Has, Item.kind] at *

/-- An added item is recorded, and everything else stays as it was. -/
theorem Adds.has_iff {options next : Options} {item : Item} (adds : Adds options item next)
    (other : Item) : next.Has other ↔ other = item ∨ options.Has other := by
  cases adds <;> cases other <;> simp [Has, eq_comm]

theorem of_add? {options next : Options} {item : Item} (added : options.add? item = some next) :
    options.command.verb.offers item.kind = true ∧ options.IsFree item.kind ∧
      next.command.verb = options.command.verb ∧
      ∀ other, next.Has other ↔ other = item ∨ options.Has other := by
  have adds := adds_of_add? added
  refine ⟨?_, adds.isFree, ?_, adds.has_iff⟩
  · cases adds <;> rfl
  · cases adds <;> rfl

structure Admits (options : Options) (items : List Item) : Prop where
  offered : ∀ item ∈ items, options.command.verb.offers item.kind = true
  once : (items.map Item.kind).Nodup
  free : ∀ item ∈ items, options.IsFree item.kind

theorem admits_cons {options next : Options} {item : Item} {items : List Item}
    (added : options.add? item = some next) :
    options.Admits (item :: items) ↔ next.Admits items := by
  obtain ⟨offered, free, verb, has⟩ := of_add? added
  constructor
  · rintro ⟨offered', once, free'⟩
    rw [List.map_cons, List.nodup_cons] at once
    refine ⟨fun other mem => verb ▸ offered' other (List.mem_cons_of_mem _ mem), once.2,
      fun other mem recorded held => ?_⟩
    rcases (has recorded).1 held with rfl | held
    · exact fun same => once.1 (same ▸ List.mem_map_of_mem mem)
    · exact free' other (List.mem_cons_of_mem _ mem) recorded held
  · rintro ⟨offered', once, free'⟩
    have apart (other : Item) (mem : other ∈ items) : item.kind ≠ other.kind :=
      free' other mem item ((has item).2 (Or.inl rfl))
    refine ⟨List.forall_mem_cons.2 ⟨offered, fun other mem => verb ▸ offered' other mem⟩, ?_,
      List.forall_mem_cons.2 ⟨free, fun other mem recorded held =>
        free' other mem recorded ((has recorded).2 (Or.inr held))⟩⟩
    rw [List.map_cons, List.nodup_cons]
    refine ⟨fun mem => ?_, once⟩
    obtain ⟨other, mem, same⟩ := List.mem_map.1 mem
    exact apart other mem same.symm

/-- Items are added one after the other exactly if they can be, and then they are recorded besides
what was recorded before. -/
theorem foldlM_add?_eq_some_iff {options final : Options} {items : List Item} :
    items.foldlM add? options = some final ↔
      options.Admits items ∧ final.command.verb = options.command.verb ∧
        ∀ item, final.Has item ↔ item ∈ items ∨ options.Has item := by
  induction items generalizing options with
  | nil =>
    constructor
    · intro same
      obtain rfl := Option.some.inj same
      exact ⟨⟨nofun, List.nodup_nil, nofun⟩, rfl, fun item => by simp⟩
    · rintro ⟨-, verb, has⟩
      exact congrArg some (eq_of_has verb.symm fun item => by simp [has])
  | cons item items ih =>
    rw [List.foldlM_cons]
    cases added : options.add? item with
    | none =>
      refine iff_of_false nofun fun ⟨admits, _⟩ => ?_
      obtain ⟨next, added'⟩ := exists_add? (admits.offered item List.mem_cons_self)
        (admits.free item List.mem_cons_self)
      rw [added] at added'
      contradiction
    | some next =>
      obtain ⟨-, -, verb, has⟩ := of_add? added
      have recorded (other : Item) : (other ∈ items ∨ next.Has other) ↔
          (other ∈ item :: items ∨ options.Has other) := by
        rw [has, List.mem_cons, or_assoc, or_left_comm]
      simp only [admits_cons added, ← verb, ← recorded]
      exact ih

theorem exists_foldlM_add? {options : Options} {items : List Item} (admits : options.Admits items) :
    ∃ final, items.foldlM add? options = some final := by
  induction items generalizing options with
  | nil => exact ⟨options, rfl⟩
  | cons item items ih =>
    obtain ⟨next, added⟩ := exists_add? (admits.offered item List.mem_cons_self)
      (admits.free item List.mem_cons_self)
    obtain ⟨final, rest⟩ := ih ((admits_cons added).1 admits)
    refine ⟨final, ?_⟩
    rw [List.foldlM_cons, added]
    exact rest

theorem readCommand?_word (verb : Verb) : readCommand? verb.word = some verb.bare := by
  cases verb <;> rfl

theorem exists_word {name : String} {command : Command} (h : readCommand? name = some command) :
    ∃ verb : Verb, verb.word = name := by
  unfold readCommand? at h
  split at h
  · exact ⟨.fmt, rfl⟩
  · exact ⟨.check, rfl⟩
  · exact ⟨.layout, rfl⟩
  · contradiction

theorem verb_bare (verb : Verb) : verb.bare.verb = verb := by
  cases verb <;> rfl

theorem not_has_bare (verb : Verb) (item : Item) : ¬Has ⟨verb.bare, none⟩ item := by
  cases verb <;> cases item <;> simp [Has, Verb.bare]

theorem read?_arguments {line : Line} (plain : ∀ item ∈ line.items, item.IsPlain) :
    read? line.arguments = line.items.foldlM add? ⟨line.verb.bare, none⟩ := by
  rw [Line.arguments, read?, readCommand?_word]
  exact readRest?_items plain _

theorem admits_bare_iff {line : Line} (plain : ∀ item ∈ line.items, item.IsPlain) :
    Admits ⟨line.verb.bare, none⟩ line.items ↔ line.IsValid := by
  constructor
  · rintro ⟨offered, once, -⟩
    exact ⟨verb_bare line.verb ▸ offered, plain, once⟩
  · rintro ⟨offered, -, once⟩
    exact ⟨(verb_bare line.verb).symm ▸ offered, once,
      fun _ _ item held => absurd held (not_has_bare line.verb item)⟩

theorem read?_arguments_eq_some_iff {line : Line} (plain : ∀ item ∈ line.items, item.IsPlain)
    {options : Options} :
    read? line.arguments = some options ↔ line.IsValid ∧ options.Records line := by
  have has (item : Item) : (item ∈ line.items ∨ Has ⟨line.verb.bare, none⟩ item) ↔
      item ∈ line.items := or_iff_left (not_has_bare line.verb item)
  rw [read?_arguments plain, foldlM_add?_eq_some_iff, admits_bare_iff plain]
  simp only [has, verb_bare]
  exact and_congr_right fun _ => ⟨fun ⟨verb, items⟩ => ⟨verb, items⟩,
    fun ⟨verb, items⟩ => ⟨verb, items⟩⟩

theorem exists_line {arguments : List String} {options : Options}
    (read : read? arguments = some options) :
    ∃ line : Line, line.arguments = arguments ∧ ∀ item ∈ line.items, item.IsPlain := by
  unfold read? at read
  split at read
  · contradiction
  · rename_i name rest
    split at read
    · rename_i command found
      obtain ⟨verb, rfl⟩ := exists_word found
      obtain ⟨items, rfl, plain⟩ := exists_items read
      exact ⟨⟨verb, items⟩, rfl, plain⟩
    · contradiction

end Options

theorem Line.IsValid.of_perm {line : Line} (valid : line.IsValid) {order : List Item}
    (perm : order.Perm line.items) : (Line.mk line.verb order).IsValid where
  offered item mem := valid.offered item (perm.mem_iff.1 mem)
  plain item mem := valid.plain item (perm.mem_iff.1 mem)
  once := ((perm.map Item.kind).nodup_iff).2 valid.once

/-- Arguments are read exactly if they are those of a valid command line. What is read records its
command and its items, and it is the same for every order of the items. -/
theorem reads_command_lines :
    (∀ arguments, (∃ options, Options.read? arguments = some options) ↔
      ∃ line : Line, line.IsValid ∧ line.arguments = arguments) ∧
    ∀ line : Line, line.IsValid → ∃ options : Options, options.Records line ∧
      ∀ order : List Item, order.Perm line.items →
        Options.read? (Line.mk line.verb order).arguments = some options := by
  have reads (line : Line) (valid : line.IsValid) : ∃ options,
      Options.read? line.arguments = some options := by
    rw [Options.read?_arguments valid.plain]
    exact Options.exists_foldlM_add? ((Options.admits_bare_iff valid.plain).2 valid)
  refine ⟨fun arguments => ⟨fun ⟨options, read⟩ => ?_, ?_⟩, fun line valid => ?_⟩
  · obtain ⟨line, rfl, plain⟩ := Options.exists_line read
    exact ⟨line, ((Options.read?_arguments_eq_some_iff plain).1 read).1, rfl⟩
  · rintro ⟨line, valid, rfl⟩
    exact reads line valid
  · obtain ⟨options, read⟩ := reads line valid
    have records := ((Options.read?_arguments_eq_some_iff valid.plain).1 read).2
    refine ⟨options, records, fun order perm => ?_⟩
    have valid' := valid.of_perm perm
    exact (Options.read?_arguments_eq_some_iff valid'.plain).2 ⟨valid', records.verb, fun item =>
      (records.items item).trans perm.mem_iff.symm⟩

/-- A value that looks like an option, in front of that option and a file. -/
theorem reads_command_lines_of_dashed_value :
    let line : Line := ⟨.layout, [.config "--pretty", .pretty, .file "a.sqd"]⟩
    line.IsValid ∧ line.arguments = ["layout", "--config", "--pretty", "--pretty", "a.sqd"] ∧
      ∃ options : Options, options.Records line ∧
        options = ⟨.layout (some "--pretty") true, some "a.sqd"⟩ ∧
        Options.read? ["layout", "a.sqd", "--pretty", "--config", "--pretty"] = some options := by
  intro line
  have valid : line.IsValid := {
    offered := by decide
    plain := by
      have file : isOption "a.sqd" = false := by decide +kernel
      simp [line, Item.IsPlain, file]
    once := by decide }
  obtain ⟨options, records, reads⟩ := reads_command_lines.2 line valid
  have read := reads [.file "a.sqd", .pretty, .config "--pretty"] (by decide)
  exact ⟨valid, rfl, options, records, Option.some.inj (read.symm.trans rfl), read⟩

end SequenceDiagram.CommandLine
