import Fusion.Argparse.Converters
import Fusion.Argparse.Retry
import Fusion.Argparse.Segments
import Fusion.Library.Strings

/-!
# What a flat parser accepts

A parser with optional string arguments and Boolean options reads its tokens as uses of its entries,
one after the other.  `Match` does not know a value attached to a flag, which `ArgumentImpl::Parse`
could read, and takes an option with a value, which `ArgumentOption::Parse` ignores.
-/

namespace Fusion.Argparse

open StringUtil

/-- A string argument or a Boolean option. -/
structure Declaration where
  isOption : Bool
  name : Token
  flag : Option Char := none
deriving DecidableEq

/-- The variables that the entries are bound to, by the names of the entries. -/
structure Variables where
  text : Token → Token
  switch : Token → Bool

def Variables.assign (world : Variables) (name value : Token) : Variables :=
  { world with text := Function.update world.text name value }

def Variables.turnOn (world : Variables) (name : Token) : Variables :=
  { world with switch := Function.update world.switch name true }

/-- The object of an entry, without alias, choices and action. -/
def Declaration.leaf (entry : Declaration) : Leaf Variables where
  type := if entry.isOption then .option else .argument
  name := entry.name
  flag := entry.flag
  convert := fun text world =>
    if entry.isOption then (world.turnOn entry.name, .ok ())
    else
      match convertString text with
      | .error halt => (world, .error halt)
      | .ok value => (world.assign entry.name value, .ok ())

/-- The name and the flag, where there is one, are letters and digits. -/
structure Declaration.Plain (entry : Declaration) : Prop where
  name_ne_nil : entry.name ≠ []
  name_alphanum : ∀ symbol ∈ entry.name, symbol.isAlphanum = true
  flag_alphanum : ∀ flag ∈ entry.flag, flag.isAlphanum = true

/-- The entries of a parser without automatic help. -/
structure FlatParser where
  entries : List Declaration
  plain : ∀ entry ∈ entries, entry.Plain
  distinct : entries.Pairwise fun left right =>
    left.name ≠ right.name ∧ ∀ flag ∈ left.flag, right.flag ≠ some flag

namespace FlatParser

def objects (parser : FlatParser) (id : Nat) : Leaf Variables :=
  (parser.entries.getD id { isOption := true, name := [] }).leaf

def args (parser : FlatParser) : List (Entry Variables) :=
  (List.range parser.entries.length).map .leaf

end FlatParser

/-- Ways to write an argument with its value, or an option. -/
inductive Use
  /-- `--name value` -/
  | long (entry : Declaration) (value : Token)
  /-- `--name=value` -/
  | equal (entry : Declaration) (value : Token)
  /-- `-f value` -/
  | short (entry : Declaration) (flag : Char) (value : Token)
  /-- `-fvalue` -/
  | attached (entry : Declaration) (flag : Char) (value : Token)
  /-- `--name` -/
  | longOption (entry : Declaration)
  /-- `-f` -/
  | shortOption (entry : Declaration) (flag : Char)
  /-- `--name=value` for an option. -/
  | equalOption (entry : Declaration) (value : Token)

namespace Use

/-- What is used. -/
def entry : Use → Declaration
  | .long entry _ | .equal entry _ | .short entry _ _ | .attached entry _ _ | .longOption entry
  | .shortOption entry _ | .equalOption entry _ => entry

/-- How it is written. -/
def tokens : Use → List Token
  | .long entry value => ['-' :: '-' :: entry.name, value]
  | .equal entry value => ['-' :: '-' :: (entry.name ++ '=' :: value)]
  | .short _ flag value => [['-', flag], value]
  | .attached _ flag value => ['-' :: flag :: value]
  | .longOption entry => ['-' :: '-' :: entry.name]
  | .shortOption _ flag => [['-', flag]]
  | .equalOption entry value => ['-' :: '-' :: (entry.name ++ '=' :: value)]

/-- The value given to an argument. -/
def value : Use → Option Token
  | .long _ value | .equal _ value | .short _ _ value | .attached _ _ value => some value
  | .longOption _ | .shortOption _ _ | .equalOption _ _ => none

/-- The way to write fits the entry. -/
def Fits : Use → Prop
  | .long entry _ | .equal entry _ => entry.isOption = false
  | .short entry flag _ => entry.isOption = false ∧ entry.flag = some flag
  | .attached entry flag value => entry.isOption = false ∧ entry.flag = some flag ∧ value ≠ []
  | .longOption entry | .equalOption entry _ => entry.isOption = true
  | .shortOption entry flag => entry.isOption = true ∧ entry.flag = some flag

/-- A text that is not all whitespace. -/
def Legible (value : Token) : Prop := ∃ symbol ∈ value, symbol ∉ whitespaceTokens

/-- A way to write that the parser is meant to take and takes. -/
def Taken : Use → Prop
  | .long _ value | .equal _ value | .short _ _ value => Legible value
  | .longOption _ | .shortOption _ _ => True
  | .attached _ _ _ | .equalOption _ _ => False

end Use

/-- The tokens are uses of entries of the parser, of each entry at most one. -/
structure Spells (parser : FlatParser) (uses : List Use) (tokens : List Token) : Prop where
  tokens_eq : tokens = uses.flatMap Use.tokens
  fits : ∀ use ∈ uses, use.entry ∈ parser.entries ∧ use.Fits
  once : (uses.map Use.entry).Nodup

/-- Every argument that is used has its value, without the whitespace around it. -/
def Bound (uses : List Use) (world : Variables) : Prop :=
  ∀ use ∈ uses, ∀ value ∈ use.value, world.text use.entry.name = withoutEnds value whitespaceTokens

/-- What a use changes. -/
def Use.apply (use : Use) (world : Variables) : Variables :=
  match use.value with
  | some value =>
    world.assign use.entry.name (withoutEnds value whitespaceTokens)
  | none => world.turnOn use.entry.name

/-! ## Matching -/

/-- A first token that belongs to the entry. -/
def Declaration.Begins (entry : Declaration) (token : Token) : Prop :=
  (∃ flag ∈ entry.flag, token = ['-', flag]) ∨ token = '-' :: '-' :: entry.name ∨
    ∃ value, token = '-' :: '-' :: (entry.name ++ '=' :: value)

theorem Declaration.Plain.equal_notMem {entry : Declaration} (plain : entry.Plain) :
    '=' ∉ entry.name :=
  fun member => absurd (plain.name_alphanum '=' member) (by decide)

variable {flag : Char}

theorem Declaration.Plain.flag_ne {entry : Declaration} (plain : entry.Plain)
    (flag_eq : entry.flag = some flag) : flag ≠ '-' := by
  rintro rfl
  exact absurd (plain.flag_alphanum '-' flag_eq) (by decide)

/-- `Matcher` on a token with a second character. -/
theorem matcher_eq {beyond second : Char} {rest name : Token} (nonempty : name ≠ [])
    (absent : '=' ∉ name) :
    ∃ matched, Leaf.matcher beyond ('-' :: second :: rest) name = .ok matched ∧
      (matched = true ↔ second = '-' ∧ (rest = name ∨ ∃ value, rest = name ++ '=' :: value)) := by
  by_cases dash : second = '-'
  · subst dash
    have cut : substr ('-' :: '-' :: rest) 2 = .ok rest := if_pos (by simp)
    have enter : ¬(name = [] ∨ ('-' :: '-' :: rest).getD 1 beyond ≠ '-') := by
      simp [nonempty]
    rw [Leaf.matcher, if_neg enter, cut]
    dsimp only
    by_cases whole : name = rest
    · exact ⟨true, if_pos whole, by simp [whole]⟩
    rw [if_neg whole]
    by_cases divided : '=' ∈ rest
    · obtain ⟨front, back, rfl, front_absent⟩ := List.eq_append_cons_of_mem divided
      rw [Strings.idxOf?_append_cons front_absent]
      dsimp only
      refine ⟨_, rfl, ?_⟩
      rw [List.take_left, beq_iff_eq]
      constructor
      · rintro rfl
        exact ⟨rfl, .inr ⟨back, rfl⟩⟩
      · rintro ⟨-, same | ⟨value, same⟩⟩
        · exact absurd same.symm whole
        · exact (Strings.eq_of_append_cons_eq front_absent absent same).symm
    · rw [List.idxOf?_eq_none_iff.mpr divided]
      refine ⟨false, rfl, iff_of_false Bool.false_ne_true ?_⟩
      rintro ⟨-, same | ⟨value, rfl⟩⟩
      · exact whole same.symm
      · exact divided (List.mem_append_right _ List.mem_cons_self)
  · refine ⟨false, if_pos (.inr ?_), by simp [dash]⟩
    exact dash

variable {beyond : Char}

theorem matchBase_of_unflagged {entry : Declaration} {rest : Token}
    (unflagged : ¬(entry.flag.isSome ∧ ('-' :: rest).length = 2 ∧ ('-' :: rest)[1]? = entry.flag)) :
    entry.leaf.matchBase beyond ('-' :: rest) =
      Leaf.matcher beyond ('-' :: rest) entry.leaf.name := by
  have no_alias : Leaf.matcher beyond ('-' :: rest) entry.leaf.aliasName = .ok false :=
    if_pos (.inl rfl)
  rw [Leaf.matchBase, if_neg (by simp), no_alias]
  refine (if_neg unflagged).trans ?_
  cases Leaf.matcher beyond ('-' :: rest) entry.leaf.name with
  | error halt => rfl
  | ok matched => cases matched <;> rfl

/-- The token `-` belongs to no entry, and is taken by none. -/
theorem matchBase_dash (entry : Declaration) (beyond : Char) :
    entry.leaf.matchBase beyond ['-'] ≠ .ok true ∧ ¬entry.Begins ['-'] := by
  constructor
  · rw [matchBase_of_unflagged (by simp), Leaf.matcher]
    split
    · simp
    · have thrown : substr ['-'] 2 = .error .outOfRange := rfl
      rw [thrown]
      simp
  · simp [Declaration.Begins]

theorem matchBase_cons {entry : Declaration} (plain : entry.Plain) (beyond second : Char)
    (rest : Token) :
    ∃ matched, entry.leaf.matchBase beyond ('-' :: second :: rest) = .ok matched ∧
      (matched = true ↔ entry.Begins ('-' :: second :: rest)) := by
  by_cases flagged : entry.flag.isSome ∧ ('-' :: second :: rest).length = 2 ∧
      ('-' :: second :: rest)[1]? = entry.flag
  · refine ⟨true, (if_neg (by simp)).trans (if_pos flagged), iff_of_true rfl (.inl ?_)⟩
    obtain ⟨-, length_eq, flag_eq⟩ := flagged
    obtain rfl : rest = [] := List.length_eq_zero_iff.mp (by simpa using length_eq)
    exact ⟨second, flag_eq.symm, rfl⟩
  · obtain ⟨matched, matched_eq, matched_iff⟩ :=
      @matcher_eq beyond second rest entry.name plain.name_ne_nil plain.equal_notMem
    refine ⟨matched, (matchBase_of_unflagged flagged).trans matched_eq, matched_iff.trans ?_⟩
    constructor
    · rintro ⟨rfl, rfl | ⟨value, rfl⟩⟩
      · exact .inr (.inl rfl)
      · exact .inr (.inr ⟨value, rfl⟩)
    · rintro (⟨flag, flag_eq, same⟩ | same | ⟨value, same⟩)
      · cases same
        exact absurd ⟨by rw [flag_eq]; rfl, rfl, flag_eq.symm⟩ flagged
      · cases same
        exact ⟨rfl, .inl rfl⟩
      · cases same
        exact ⟨rfl, .inr ⟨value, rfl⟩⟩

theorem matchToken_leaf (entry : Declaration) (beyond : Char) (found : Finset Token)
    (token : Token) :
    entry.leaf.matchToken beyond found token = entry.leaf.matchBase beyond token := by
  unfold Leaf.matchToken Declaration.leaf
  cases entry.isOption <;> rfl

theorem matchBase_iff {entry : Declaration} (plain : entry.Plain) (beyond : Char)
    (token : Token) :
    (entry.leaf.matchBase beyond token = .ok true ↔ entry.Begins token) ∧
      (token ≠ ['-'] → ∃ matched, entry.leaf.matchBase beyond token = .ok matched) := by
  cases token with
  | nil => simp [Declaration.Begins, Leaf.matchBase]
  | cons first token =>
    by_cases dash : first = '-'
    · subst dash
      cases token with
      | nil =>
        obtain ⟨unmatched, unbegun⟩ := matchBase_dash entry beyond
        exact ⟨iff_of_false unmatched unbegun, fun other => absurd rfl other⟩
      | cons second rest =>
        obtain ⟨matched, matched_eq, matched_iff⟩ :=
          matchBase_cons plain beyond second rest
        rw [matched_eq, Except.ok.injEq]
        exact ⟨matched_iff, fun _ => ⟨matched, rfl⟩⟩
    · have unmatched : entry.leaf.matchBase beyond (first :: token) = .ok false :=
        if_pos (by simpa using dash)
      rw [unmatched]
      simp [Declaration.Begins, dash]

/-! ## Values -/

variable {text : Token}

theorem convertString_of_legible (legible : Use.Legible text) :
    convertString text = .ok (withoutEnds text whitespaceTokens) := by
  rcases trimView_cases text whitespaceTokens with ⟨-, blank⟩ | ⟨viewed, -⟩
  · obtain ⟨symbol, member, kept⟩ := legible
    exact absurd (blank symbol member) kept
  · rw [convertString, viewed]

theorem convertString_of_blank (blank : ¬Use.Legible text) :
    convertString text = .error .outOfRange := by
  rcases trimView_cases text whitespaceTokens with ⟨thrown, -⟩ | ⟨-, legible⟩
  · rw [convertString, thrown]
  · exact absurd legible blank

section Parse

variable {entry : Declaration} {beyond : Char} {token value : Token} {args : List Token}
  {world : Variables} {more : Nat}

theorem type_option (option : entry.isOption = true) : entry.leaf.type = .option :=
  if_pos option

theorem type_argument (argument : entry.isOption = false) : entry.leaf.type = .argument :=
  if_neg (by rw [argument]; exact Bool.false_ne_true)

theorem handler_option (option : entry.isOption = true) :
    entry.leaf.handler value world = (world.turnOn entry.name, .ok ()) := by
  have converted : entry.leaf.convert value world = (world.turnOn entry.name, .ok ()) :=
    if_pos option
  rw [Leaf.handler, converted]
  dsimp only
  rw [type_option option]
  rfl

theorem handler_argument (argument : entry.isOption = false) (legible : Use.Legible value) :
    entry.leaf.handler value world =
      (world.assign entry.name (withoutEnds value whitespaceTokens), .ok ()) := by
  have converted : entry.leaf.convert value world =
      (world.assign entry.name (withoutEnds value whitespaceTokens), .ok ()) := by
    simp [Declaration.leaf, argument, convertString_of_legible legible]
  rw [Leaf.handler, converted]
  dsimp only
  rw [type_argument argument]
  rfl

theorem handler_blank (argument : entry.isOption = false) (blank : ¬Use.Legible value) :
    entry.leaf.handler value world = (world, .error .outOfRange) := by
  have converted : entry.leaf.convert value world = (world, .error .outOfRange) := by
    simp [Declaration.leaf, argument, convertString_of_blank blank]
  rw [Leaf.handler, converted]

theorem parse_option (option : entry.isOption = true) :
    entry.leaf.parse beyond token args world = (world.turnOn entry.name, .ok 0) := by
  rw [Leaf.parse, type_option option]
  dsimp only
  rw [handler_option option]

variable (argument : entry.isOption = false)
include argument

theorem parse_argument (legible : Use.Legible value)
    (valued : Leaf.valueOf beyond token args = .ok (value, more)) :
    entry.leaf.parse beyond token args world =
      (world.assign entry.name (withoutEnds value whitespaceTokens), .ok more) := by
  rw [Leaf.parse, type_argument argument]
  dsimp only
  rw [valued]
  dsimp only
  rw [handler_argument argument legible]

theorem parse_unvalued {halt : Halt} (unvalued : Leaf.valueOf beyond token args = .error halt) :
    entry.leaf.parse beyond token args world = (world, .error halt) := by
  rw [Leaf.parse, type_argument argument]
  dsimp only
  rw [unvalued]

theorem parse_blank (blank : ¬Use.Legible value)
    (valued : Leaf.valueOf beyond token args = .ok (value, more)) :
    entry.leaf.parse beyond token args world = (world, .error .outOfRange) := by
  rw [Leaf.parse, type_argument argument]
  dsimp only
  rw [valued]
  dsimp only
  rw [handler_blank argument blank]

theorem of_parse_argument {after : Variables}
    (parsed : entry.leaf.parse beyond token args world = (after, .ok more)) :
    ∃ value, Leaf.valueOf beyond token args = .ok (value, more) ∧
      after = world.assign entry.name
        (withoutEnds value whitespaceTokens) := by
  cases valued : Leaf.valueOf beyond token args with
  | error halt =>
    rw [parse_unvalued argument valued] at parsed
    cases parsed
  | ok pair =>
    obtain ⟨value, count⟩ := pair
    by_cases legible : Use.Legible value
    · rw [parse_argument argument legible valued] at parsed
      cases parsed
      exact ⟨value, rfl, rfl⟩
    · rw [parse_blank argument legible valued] at parsed
      cases parsed

end Parse

variable {more : Nat}

section Values

variable {beyond : Char} {name : Token}

theorem valueOf_equal (absent : '=' ∉ name) (value : Token) (args : List Token) :
    Leaf.valueOf beyond ('-' :: '-' :: (name ++ '=' :: value)) args = .ok (value, 0) := by
  have whole_absent : '=' ∉ '-' :: '-' :: name := by simp [absent]
  have index_eq : ('-' :: '-' :: (name ++ '=' :: value)).idxOf? '=' = some (name.length + 2) :=
    Strings.idxOf?_append_cons whole_absent value
  have cut : substr ('-' :: '-' :: (name ++ '=' :: value)) (name.length + 2 + 1) = .ok value := by
    rw [substr, if_pos (by simp)]
    have drop_eq : ('-' :: '-' :: (name ++ '=' :: value)).drop (name.length + 2 + 1) = value := by
      simp [List.drop_append]
    rw [drop_eq]
  have dashes : ('-' :: '-' :: (name ++ '=' :: value)).getD 1 beyond = '-' := rfl
  unfold Leaf.valueOf
  rw [if_pos dashes, index_eq]
  dsimp only
  rw [cut]
  rfl

theorem valueOf_long (absent : '=' ∉ name) (value : Token) (args : List Token) :
    Leaf.valueOf beyond ('-' :: '-' :: name) (value :: args) = .ok (value, 1) := by
  have whole_absent : '=' ∉ '-' :: '-' :: name := by simp [absent]
  have dashes : ('-' :: '-' :: name).getD 1 beyond = '-' := rfl
  rw [Leaf.valueOf, if_pos dashes, List.idxOf?_eq_none_iff.mpr whole_absent]

theorem valueOf_short (plain : flag ≠ '-') (value : Token) (args : List Token) :
    Leaf.valueOf beyond ['-', flag] (value :: args) = .ok (value, 1) := by
  rw [Leaf.valueOf, if_neg, if_neg (by simp)]
  exact plain

theorem of_valueOf_long (absent : '=' ∉ name) {value : Token} {args : List Token}
    (valued : Leaf.valueOf beyond ('-' :: '-' :: name) args = .ok (value, more)) :
    args = value :: args.drop more ∧ more = 1 := by
  cases args with
  | nil =>
    have whole_absent : '=' ∉ '-' :: '-' :: name := by simp [absent]
    have dashes : ('-' :: '-' :: name).getD 1 beyond = '-' := rfl
    rw [Leaf.valueOf, if_pos dashes, List.idxOf?_eq_none_iff.mpr whole_absent] at valued
    cases valued
  | cons next args =>
    rw [valueOf_long absent] at valued
    cases valued
    exact ⟨rfl, rfl⟩

theorem of_valueOf_short (plain : flag ≠ '-') {value : Token} {args : List Token}
    (valued : Leaf.valueOf beyond ['-', flag] args = .ok (value, more)) :
    args = value :: args.drop more ∧ more = 1 := by
  cases args with
  | nil =>
    rw [Leaf.valueOf, if_neg, if_neg (by simp)] at valued
    · cases valued
    · exact plain
  | cons next args =>
    rw [valueOf_short plain] at valued
    cases valued
    exact ⟨rfl, rfl⟩

end Values

/-! ## Uses -/

variable {use : Use} {other : Declaration}

namespace Declaration.Plain

variable {entry : Declaration} {token : Token}

theorem exists_use (plain : entry.Plain) {args : List Token} {world after : Variables}
    (begins : entry.Begins token)
    (parsed : entry.leaf.parse beyond token args world = (after, .ok more)) :
    ∃ use : Use, use.entry = entry ∧ use.Fits ∧ token :: args = use.tokens ++ args.drop more ∧
      after = use.apply world := by
  cases kind : entry.isOption with
  | true =>
    rw [parse_option kind] at parsed
    cases parsed
    rcases begins with ⟨flag, flag_eq, rfl⟩ | rfl | ⟨value, rfl⟩
    · exact ⟨.shortOption entry flag, rfl, ⟨kind, flag_eq⟩, rfl, rfl⟩
    · exact ⟨.longOption entry, rfl, kind, rfl, rfl⟩
    · exact ⟨.equalOption entry value, rfl, kind, rfl, rfl⟩
  | false =>
    obtain ⟨value, valued, rfl⟩ := of_parse_argument kind parsed
    rcases begins with ⟨flag, flag_eq, rfl⟩ | rfl | ⟨text, rfl⟩
    · obtain ⟨args_eq, -⟩ := of_valueOf_short (plain.flag_ne flag_eq) valued
      exact ⟨.short entry flag value, rfl, ⟨kind, flag_eq⟩, congrArg _ args_eq, rfl⟩
    · obtain ⟨args_eq, -⟩ := of_valueOf_long plain.equal_notMem valued
      exact ⟨.long entry value, rfl, kind, congrArg _ args_eq, rfl⟩
    · rw [valueOf_equal plain.equal_notMem] at valued
      cases valued
      exact ⟨.equal entry value, rfl, kind, rfl, rfl⟩

theorem parse_use (plain : use.entry.Plain) (fits : use.Fits) (taken : use.Taken) (beyond : Char) :
    ∃ token more, use.tokens = token :: more ∧ use.entry.Begins token ∧
      ∀ rest world, use.entry.leaf.parse beyond token (more ++ rest) world =
        (use.apply world, .ok more.length) := by
  cases use with
  | long entry value =>
    exact ⟨_, [value], rfl, .inr (.inl rfl), fun rest world =>
      parse_argument fits taken (valueOf_long plain.equal_notMem value rest)⟩
  | equal entry value =>
    exact ⟨_, [], rfl, .inr (.inr ⟨value, rfl⟩), fun rest world =>
      parse_argument fits taken (valueOf_equal plain.equal_notMem value rest)⟩
  | short entry flag value =>
    exact ⟨_, [value], rfl, .inl ⟨flag, fits.2, rfl⟩, fun rest world =>
      parse_argument fits.1 taken (valueOf_short (plain.flag_ne fits.2) value rest)⟩
  | attached entry flag value => exact taken.elim
  | longOption entry =>
    exact ⟨_, [], rfl, .inr (.inl rfl), fun rest world => parse_option fits⟩
  | shortOption entry flag =>
    exact ⟨_, [], rfl, .inl ⟨flag, fits.2, rfl⟩, fun rest world => parse_option fits.1⟩
  | equalOption entry value => exact taken.elim

theorem shares (plain : entry.Plain) (other_plain : other.Plain) (begins : entry.Begins token)
    (other_begins : other.Begins token) :
    entry.name = other.name ∨ ∃ flag ∈ entry.flag, other.flag = some flag := by
  have absent := plain.equal_notMem
  have other_absent := other_plain.equal_notMem
  rcases begins with ⟨flag, flag_eq, rfl⟩ | rfl | ⟨value, rfl⟩
  · rcases other_begins with ⟨other_flag, other_eq, same⟩ | same | ⟨value, same⟩
    · cases same
      exact .inr ⟨flag, flag_eq, other_eq⟩
    · exact absurd (List.cons.inj (List.cons.inj same).2).1 (plain.flag_ne flag_eq)
    · exact absurd (List.cons.inj (List.cons.inj same).2).1 (plain.flag_ne flag_eq)
  · rcases other_begins with ⟨flag, flag_eq, same⟩ | same | ⟨value, same⟩
    · exact absurd (List.cons.inj (List.cons.inj same).2).1.symm (other_plain.flag_ne flag_eq)
    · exact .inl (List.cons.inj (List.cons.inj same).2).2
    · rw [(List.cons.inj (List.cons.inj same).2).2] at absent
      exact absurd (List.mem_append_right _ List.mem_cons_self) absent
  · rcases other_begins with ⟨flag, flag_eq, same⟩ | same | ⟨text, same⟩
    · exact absurd (List.cons.inj (List.cons.inj same).2).1.symm (other_plain.flag_ne flag_eq)
    · rw [← (List.cons.inj (List.cons.inj same).2).2] at other_absent
      exact absurd (List.mem_append_right _ List.mem_cons_self) other_absent
    · exact .inl (Strings.eq_of_append_cons_eq absent other_absent
        (List.cons.inj (List.cons.inj same).2).2)

end Declaration.Plain

/-! ## The loop -/

theorem firstMatch_of_unique {ω : Type} {objects : Nat → Leaf ω} {beyond : Char}
    {found : Finset Token} {token : Token} {args : List (Entry ω)} {entry : Entry ω}
    (member : entry ∈ args) (matched : entry.matchToken objects beyond found token = .ok true)
    (others : ∀ other ∈ args,
      other = entry ∨ other.matchToken objects beyond found token = .ok false) :
    Entry.firstMatch objects beyond found token args = .ok (some entry) := by
  induction args with
  | nil => cases member
  | cons head args ih =>
    rw [Entry.firstMatch]
    rcases others head List.mem_cons_self with rfl | unmatched
    · rw [matched]
    · rw [unmatched]
      refine ih ?_ fun other later => others other (List.mem_cons_of_mem _ later)
      rcases List.mem_cons.mp member with rfl | later
      · cases matched.symm.trans unmatched
      · exact later

variable {uses : List Use}

namespace FlatParser

variable {parser : FlatParser} {id : Nat} {entry : Declaration} {beyond : Char}
  {found : Finset Token} {token : Token}

theorem objects_eq (at_id : parser.entries[id]? = some entry) : parser.objects id = entry.leaf := by
  rw [objects, List.getD_eq_getElem?_getD, at_id, Option.getD_some]

variable {place : Nat}

theorem related_of_lt (at_id : parser.entries[id]? = some entry)
    (at_place : parser.entries[place]? = some other) (order : id < place) :
    entry.name ≠ other.name ∧ ∀ flag ∈ entry.flag, other.flag ≠ some flag := by
  obtain ⟨inside, rfl⟩ := List.getElem?_eq_some_iff.mp at_id
  obtain ⟨place_inside, rfl⟩ := List.getElem?_eq_some_iff.mp at_place
  exact List.pairwise_iff_getElem.mp parser.distinct id place inside place_inside order

theorem id_eq_of_shares (at_id : parser.entries[id]? = some entry)
    (at_place : parser.entries[place]? = some other)
    (shared : entry.name = other.name ∨ ∃ flag ∈ entry.flag, other.flag = some flag) :
    id = place := by
  rcases Nat.lt_trichotomy id place with before | same | behind
  · obtain ⟨names, flags⟩ := related_of_lt at_id at_place before
    rcases shared with name_eq | ⟨flag, flag_eq, other_eq⟩
    · exact absurd name_eq names
    · exact absurd other_eq (flags flag flag_eq)
  · exact same
  · obtain ⟨names, flags⟩ := related_of_lt at_place at_id behind
    rcases shared with name_eq | ⟨flag, flag_eq, other_eq⟩
    · exact absurd name_eq.symm names
    · exact absurd flag_eq (flags flag other_eq)

theorem eq_of_name_eq (member : entry ∈ parser.entries) (other_member : other ∈ parser.entries)
    (same : entry.name = other.name) : entry = other := by
  obtain ⟨id, at_id⟩ := List.getElem?_of_mem member
  obtain ⟨place, at_place⟩ := List.getElem?_of_mem other_member
  rw [id_eq_of_shares at_id at_place (.inl same), at_place] at at_id
  exact (Option.some.inj at_id).symm

variable {matched : Entry Variables}

theorem mem_args_iff :
    matched ∈ parser.args ↔ ∃ id entry, matched = .leaf id ∧ parser.entries[id]? = some entry := by
  rw [args, List.mem_map]
  constructor
  · rintro ⟨id, inside, rfl⟩
    exact ⟨id, _, rfl, List.getElem?_eq_getElem (List.mem_range.mp inside)⟩
  · rintro ⟨id, entry, rfl, at_id⟩
    exact ⟨id, List.mem_range.mpr (List.getElem?_eq_some_iff.mp at_id).1, rfl⟩

theorem matchToken_eq (at_id : parser.entries[id]? = some entry) :
    (Entry.leaf id).matchToken parser.objects beyond found token =
      entry.leaf.matchBase beyond token := by
  rw [Entry.matchToken, objects_eq at_id, matchToken_leaf]

theorem firstMatch_of_begins (at_id : parser.entries[id]? = some entry)
    (begins : entry.Begins token) :
    Entry.firstMatch parser.objects beyond found token parser.args = .ok (some (.leaf id)) := by
  have plain := parser.plain entry (List.mem_of_getElem? at_id)
  refine firstMatch_of_unique (mem_args_iff.mpr ⟨id, entry, rfl, at_id⟩) ?_ ?_
  · rw [matchToken_eq at_id]
    exact (matchBase_iff plain beyond token).1.mpr begins
  · intro other member
    obtain ⟨place, next, rfl, at_place⟩ := mem_args_iff.mp member
    have next_plain := parser.plain next (List.mem_of_getElem? at_place)
    obtain ⟨matches_iff, decided⟩ := matchBase_iff next_plain beyond token
    have longer : token ≠ ['-'] := by
      rintro rfl
      exact (matchBase_dash entry beyond).2 begins
    obtain ⟨matched, matched_eq⟩ := decided longer
    rw [matchToken_eq at_place, matched_eq]
    cases matched with
    | false => exact .inr rfl
    | true =>
      have shared := next_plain.shares plain (matches_iff.mp matched_eq) begins
      exact .inl (congrArg Entry.leaf (id_eq_of_shares at_place at_id shared))

theorem of_firstMatch
    (first : Entry.firstMatch parser.objects beyond found token parser.args = .ok (some matched)) :
    ∃ id entry, matched = .leaf id ∧ parser.entries[id]? = some entry ∧ entry.Begins token := by
  obtain ⟨front, back, args_eq, -, taken⟩ := firstMatch_eq_some first
  have member : matched ∈ parser.args := by
    rw [args_eq]
    exact List.mem_append_right _ List.mem_cons_self
  obtain ⟨id, entry, rfl, at_id⟩ := mem_args_iff.mp member
  rw [matchToken_eq at_id] at taken
  have plain := parser.plain entry (List.mem_of_getElem? at_id)
  exact ⟨id, entry, rfl, at_id, (matchBase_iff plain beyond token).1.mp taken⟩

theorem unduplicated_iff (at_id : parser.entries[id]? = some entry) {names : Finset Token} :
    ¬((Entry.leaf id : Entry Variables).name parser.objects ∈ names ∧
        (Entry.leaf id : Entry Variables).isSequence parser.objects = false) ↔
      entry.name ∉ names := by
  rw [Entry.name, Entry.isSequence, objects_eq at_id]
  exact ⟨fun unduplicated known => unduplicated ⟨known, rfl⟩, fun fresh known => fresh known.1⟩

/-- The state after a use. -/
def after (state : State Variables) (use : Use) : State Variables :=
  { state with world := use.apply state.world }.markArgumentFound use.entry.name

variable {path : List Token} {state : State Variables}

theorem processLoop_use (member : use.entry ∈ parser.entries) (fits : use.Fits)
    (taken : use.Taken) (fresh : use.entry.name ∉ state.found) (rest : List Token) :
    processLoop parser.objects beyond path parser.args (use.tokens ++ rest) state =
      processLoop parser.objects beyond path parser.args rest (after state use) := by
  obtain ⟨id, at_id⟩ := List.getElem?_of_mem member
  obtain ⟨token, more, tokens_eq, begins, parsed⟩ :=
    (parser.plain _ member).parse_use fits taken beyond
  have taken_eq : (parser.objects id).parse beyond token (more ++ rest) state.world =
      (use.apply state.world, .ok more.length) := by
    rw [objects_eq at_id]
    exact parsed rest state.world
  rw [tokens_eq, List.cons_append, processLoop_leaf (firstMatch_of_begins at_id begins)
    ((unduplicated_iff at_id).mpr fresh) taken_eq, List.drop_left, objects_eq at_id]
  rfl

theorem spells_cons_iff {tokens : List Token} :
    Spells parser (use :: uses) tokens ↔
      ∃ rest, tokens = use.tokens ++ rest ∧ use.entry ∈ parser.entries ∧ use.Fits ∧
        (∀ later ∈ uses, later.entry.name ≠ use.entry.name) ∧ Spells parser uses rest := by
  constructor
  · rintro ⟨rfl, fits, once⟩
    obtain ⟨member, use_fits⟩ := fits use List.mem_cons_self
    have later_fits : ∀ later ∈ uses, later.entry ∈ parser.entries ∧ later.Fits :=
      fun later listed => fits later (List.mem_cons_of_mem _ listed)
    obtain ⟨absent, later_once⟩ := List.nodup_cons.mp once
    refine ⟨_, rfl, member, use_fits, ?_, rfl, later_fits, later_once⟩
    intro later listed same
    have entry_eq := eq_of_name_eq (later_fits later listed).1 member same
    exact absent (List.mem_map.mpr ⟨later, listed, entry_eq⟩)
  · rintro ⟨rest, rfl, member, use_fits, apart, rfl, fits, once⟩
    refine ⟨rfl, ?_, List.nodup_cons.mpr ⟨?_, once⟩⟩
    · intro other listed
      rcases List.mem_cons.mp listed with rfl | later
      · exact ⟨member, use_fits⟩
      · exact fits other later
    · intro known
      obtain ⟨later, listed, same⟩ := List.mem_map.mp known
      exact apart later listed (congrArg Declaration.name same)

theorem processLoop_uses {tokens : List Token} (spells : Spells parser uses tokens)
    (taken : ∀ use ∈ uses, use.Taken) (fresh : ∀ use ∈ uses, use.entry.name ∉ state.found) :
    processLoop parser.objects beyond path parser.args tokens state =
      (uses.foldl after state, .ok []) := by
  induction uses generalizing tokens state with
  | nil =>
    rw [spells.tokens_eq, List.flatMap_nil, processLoop, List.foldl_nil]
  | cons use uses ih =>
    obtain ⟨rest, rfl, member, fits, apart, others⟩ := spells_cons_iff.mp spells
    rw [processLoop_use member fits (taken use List.mem_cons_self)
      (fresh use List.mem_cons_self), List.foldl_cons]
    refine ih others (fun later listed => taken later (List.mem_cons_of_mem _ listed)) ?_
    intro later listed known
    rcases Finset.mem_insert.mp known with same | before
    · exact apart later listed same
    · exact fresh later (List.mem_cons_of_mem _ listed) before

/-- A loop that leaves no token has taken uses, one after the other. -/
theorem exists_uses_of_processLoop {tokens : List Token} {before ended : State Variables}
    (looped : processLoop parser.objects beyond path parser.args tokens before = (ended, .ok [])) :
    ∃ uses, Spells parser uses tokens ∧ (∀ use ∈ uses, use.entry.name ∉ before.found) ∧
      ended = uses.foldl after before := by
  generalize args_eq : parser.args = args at looped
  fun_induction processLoop parser.objects beyond path args tokens before generalizing ended with
  | case1 path args state =>
    cases looped
    exact ⟨[], ⟨rfl, by simp, List.nodup_nil⟩, by simp, rfl⟩
  | case2 => cases looped
  | case3 => cases looped
  | case4 => cases looped
  | case5 => cases looped
  | case6 path args state token tokens id world more parsed matched unduplicated ih =>
    subst args_eq
    obtain ⟨place, entry, same, at_id, begins⟩ := of_firstMatch matched
    cases same
    have member := List.mem_of_getElem? at_id
    rw [objects_eq at_id] at parsed looped ih
    obtain ⟨use, rfl, fits, tokens_eq, rfl⟩ :=
      (parser.plain entry member).exists_use begins parsed
    obtain ⟨uses, spells, fresh, rfl⟩ := ih rfl looped
    refine ⟨use :: uses, spells_cons_iff.mpr ⟨_, tokens_eq, member, fits, ?_, spells⟩, ?_, rfl⟩
    · intro later listed same
      exact fresh later listed (same ▸ Finset.mem_insert_self ..)
    · intro other listed
      rcases List.mem_cons.mp listed with rfl | later
      · exact (unduplicated_iff at_id).mp unduplicated
      · exact fun known => fresh other later (Finset.mem_insert_of_mem known)
  | case7 => cases looped
  | case8 => cases looped
  | case9 => cases looped
  | case10 path args state token tokens info inner entered ended remaining inner_looped finished
      world acted matched unduplicated =>
      -- A flat parser has no commands.
      subst args_eq
      obtain ⟨place, entry, same, -⟩ := of_firstMatch matched
      cases same

theorem finish_eq (names : Finset Token) : finish parser.objects parser.args names [] = .ok () := by
  have satisfied : (parser.args.find? fun entry =>
      entry.required parser.objects && decide (entry.name parser.objects ∉ names)) = none := by
    refine List.find?_eq_none.mpr ?_
    intro matched listed
    obtain ⟨id, entry, rfl, at_id⟩ := mem_args_iff.mp listed
    rw [Entry.required, objects_eq at_id]
    simp [Declaration.leaf]
  rw [finish, satisfied]

end FlatParser

/-! ## The variables -/

theorem Use.text_apply_self {value : Token} (valued : use.value = some value) (world : Variables) :
    (use.apply world).text use.entry.name = withoutEnds value whitespaceTokens := by
  simp [Use.apply, valued, Variables.assign]

variable {name : Token}

theorem Use.text_apply_of_ne (other : use.entry.name ≠ name) (world : Variables) :
    (use.apply world).text name = world.text name := by
  cases valued : use.value with
  | none => simp [Use.apply, valued, Variables.turnOn]
  | some value => simp [Use.apply, valued, Variables.assign, Function.update_of_ne other.symm]

namespace FlatParser

variable {parser : FlatParser}

theorem text_foldl_after (others : ∀ use ∈ uses, use.entry.name ≠ name) (state : State Variables) :
    (uses.foldl after state).world.text name = state.world.text name := by
  induction uses generalizing state with
  | nil => rfl
  | cons use uses ih =>
    rw [List.foldl_cons, ih fun later listed => others later (List.mem_cons_of_mem _ listed)]
    exact Use.text_apply_of_ne (others use List.mem_cons_self) state.world

theorem bound_foldl_after {tokens : List Token} (spells : Spells parser uses tokens)
    (state : State Variables) : Bound uses (uses.foldl after state).world := by
  induction uses generalizing tokens state with
  | nil => simp [Bound]
  | cons use uses ih =>
    obtain ⟨rest, -, -, -, apart, others⟩ := spells_cons_iff.mp spells
    intro other listed value valued
    rw [List.foldl_cons]
    rcases List.mem_cons.mp listed with rfl | later
    · rw [text_foldl_after apart]
      exact Use.text_apply_self valued state.world
    · exact ih others (after state use) other later value valued

/-- The first parse of a parser, in a program with these variables. -/
def parse (parser : FlatParser) (overload : Overload) (beyond : Char) (arguments : List Token)
    (offset : Nat) (world : Variables) : State Variables × Except Halt Unit :=
  overload.parse parser.objects beyond parser.args arguments offset (.fresh world)

theorem parse_of_spells {overload : Overload} {arguments tokens : List Token} {offset : Nat}
    (processed : overload.processed arguments offset = some tokens)
    (spells : Spells parser uses tokens) (taken : ∀ use ∈ uses, use.Taken) (beyond : Char)
    (world : Variables) :
    parser.parse overload beyond arguments offset world =
      (uses.foldl after (.fresh world), .ok ()) := by
  have looped : processLoop parser.objects beyond [] parser.args tokens (.fresh world) =
      (uses.foldl after (.fresh world), .ok []) :=
    processLoop_uses spells taken fun use _ => Finset.notMem_empty _
  rw [parse, Overload.parse_of_processed processed, processOrReset, process, looped]
  dsimp only
  rw [finish_eq]

/-- What a flat parser accepts: uses of its entries, of each at most one.  It binds the arguments to
their values without the whitespace around them. -/
theorem parse_accepts (parser : FlatParser) (overload : Overload) (beyond : Char)
    (arguments : List Token) (offset : Nat) (world : Variables) :
    (∀ tokens uses, overload.processed arguments offset = some tokens →
        Spells parser uses tokens → (∀ use ∈ uses, use.Taken) →
          (parser.parse overload beyond arguments offset world).2 = .ok () ∧
            Bound uses (parser.parse overload beyond arguments offset world).1.world) ∧
      ((parser.parse overload beyond arguments offset world).2 = .ok () →
        ∃ tokens uses, overload.processed arguments offset = some tokens ∧
          Spells parser uses tokens ∧
            Bound uses (parser.parse overload beyond arguments offset world).1.world) := by
  constructor
  · intro tokens uses processed spells taken
    rw [parse_of_spells processed spells taken]
    exact ⟨rfl, bound_foldl_after spells _⟩
  · intro succeeded
    rcases overload.parse_cases parser.args arguments offset with
      ⟨-, message, refused⟩ | ⟨tokens, processed, parse_eq⟩
    · rw [parse, refused] at succeeded
      cases succeeded
    · rw [parse, parse_eq] at succeeded ⊢
      obtain ⟨ended, looped, -⟩ := processLoop_of_processOrReset succeeded
      obtain ⟨uses, spells, -, rfl⟩ := exists_uses_of_processLoop looped
      refine ⟨tokens, uses, processed, spells, ?_⟩
      rw [world_processOrReset, looped]
      exact bound_foldl_after spells _

/-- The argument `--key` with the flag `-k`. -/
def keyArgument : Declaration := { isOption := false, name := ['k', 'e', 'y'], flag := some 'k' }

/-- The option `--all` without a flag. -/
def allOption : Declaration := { isOption := true, name := ['a', 'l', 'l'] }

def keyParser : FlatParser where
  entries := [keyArgument, allOption]
  plain := by
    intro entry member
    rcases List.mem_pair.mp member with rfl | rfl
    · exact ⟨by decide, List.all_eq_true.mp rfl, by simp [keyArgument]⟩
    · exact ⟨by decide, List.all_eq_true.mp rfl, by simp [allOption]⟩
  distinct := by simp [keyArgument, allOption]

theorem parse_accepts_key :
    (keyParser.parse .vector '-' [['-', 'k'], ['7'], ['-', '-', 'a', 'l', 'l']] 0
        ⟨fun _ => [], fun _ => false⟩).2 = .ok () ∧
      Bound [.short keyArgument 'k' ['7'], .longOption allOption]
        (keyParser.parse .vector '-' [['-', 'k'], ['7'], ['-', '-', 'a', 'l', 'l']] 0
          ⟨fun _ => [], fun _ => false⟩).1.world := by
  refine (parse_accepts keyParser .vector '-' _ 0 _).1 _ _ rfl ⟨rfl, ?_, by decide⟩ ?_
  · simp [Use.entry, Use.Fits, keyParser, keyArgument, allOption]
  · simp [Use.Taken, Use.Legible, whitespaceTokens]

/-- The blanks around a value are not kept. -/
theorem parse_trims_value :
    Spells keyParser [.long keyArgument [' ', '7', ' ']]
        [['-', '-', 'k', 'e', 'y'], [' ', '7', ' ']] ∧
      (keyParser.parse .vector '-' [['-', '-', 'k', 'e', 'y'], [' ', '7', ' ']] 0
        ⟨fun _ => [], fun _ => false⟩).2 = .ok () ∧
      (keyParser.parse .vector '-' [['-', '-', 'k', 'e', 'y'], [' ', '7', ' ']] 0
        ⟨fun _ => [], fun _ => false⟩).1.world.text keyArgument.name = ['7'] := by
  have spells : Spells keyParser [.long keyArgument [' ', '7', ' ']]
      [['-', '-', 'k', 'e', 'y'], [' ', '7', ' ']] := by
    refine ⟨rfl, ?_, by decide⟩
    simp [Use.entry, Use.Fits, keyParser, keyArgument]
  have taken : ∀ use ∈ [Use.long keyArgument [' ', '7', ' ']], use.Taken := by
    simp [Use.Taken, Use.Legible, whitespaceTokens]
  rw [parse_of_spells rfl spells taken]
  exact ⟨spells, rfl, by decide⟩

end FlatParser

end Fusion.Argparse
