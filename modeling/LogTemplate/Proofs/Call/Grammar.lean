import LogTemplate.Proofs.Call.Layout
import LogTemplate.Proofs.Message.Placeholder
import LogTemplate.Proofs.Text.Letter
import Mathlib.Computability.Language

/-!
The shapes of a call and of a placeholder as grammars: by the parts that a text is put together
from, and by a regular pattern. A pattern can be matched in more than one way, because a receiver
may be cut into names anywhere; the parts of a call are determined by its text.
-/

namespace LogTemplate

open scoped Computability

namespace Pattern

variable {test : Char → Prop} {word : Text}

/-- One character that passes a test. -/
def one (test : Char → Prop) : Language Char :=
  {word | ∃ c, word = [c] ∧ test c}

/-- One word of a language or more of them, one after the other. -/
def many (words : Language Char) : Language Char :=
  words * words∗

/-- The members of a class, case ignored. -/
def classOf (members : Char → Bool) : Language Char :=
  one fun c => ∃ d, members d = true ∧ foldCase c = foldCase d

/-- A word, case ignored. -/
def spelled : Text → Language Char
  | [] => 1
  | c :: cs => one (foldCase · = foldCase c) * spelled cs

/-- One name or more, which may follow each other without anything between them. -/
def receiver : Language Char :=
  many (many (classOf startsName) * (classOf continuesName)∗)

def level : Language Char :=
  (logLevels.map spelled).sum

/-- A receiver, a dot, a level, an opening parenthesis, some characters of a line, and a
semicolon. -/
def call : Language Char :=
  receiver * (one (· = '.') * (level * (one (· = '(') *
    (many (one (· ≠ '\n')) * one (· = ';')))))

/-- An opening brace, decimal digits, characters of a line, and a closing brace. -/
def placeholder : Language Char :=
  one (· = '{') * (many (one (isDecimalDigit · = true)) * ((one (· ≠ '\n'))∗ * one (· = '}')))

theorem mem_one_mul {words : Language Char} :
    word ∈ one test * words ↔ ∃ c rest, word = c :: rest ∧ test c ∧ rest ∈ words := by
  rw [Language.mem_mul]
  constructor
  · rintro ⟨_, ⟨c, rfl, hc⟩, rest, hrest, rfl⟩
    exact ⟨c, rest, rfl, hc, hrest⟩
  · rintro ⟨c, rest, rfl, hc, hrest⟩
    exact ⟨[c], ⟨c, rfl, hc⟩, rest, hrest, rfl⟩

theorem mem_kstar_one : word ∈ (one test)∗ ↔ ∀ c ∈ word, test c := by
  constructor
  · rintro ⟨parts, rfl, hparts⟩ c hc
    obtain ⟨part, hpart, hmem⟩ := List.mem_flatten.mp hc
    obtain ⟨d, rfl, hd⟩ := hparts part hpart
    obtain rfl : c = d := List.mem_singleton.mp hmem
    exact hd
  · intro h
    have hparts : (word.map fun c => [c]).flatten = word := by
      rw [← List.flatMap_def, List.flatMap_singleton']
    rw [← hparts]
    apply Language.join_mem_kstar
    intro part hpart
    obtain ⟨c, hc, rfl⟩ := List.mem_map.mp hpart
    exact ⟨c, rfl, h c hc⟩

theorem mem_many_one : word ∈ many (one test) ↔ word ≠ [] ∧ ∀ c ∈ word, test c := by
  rw [many, mem_one_mul]
  constructor
  · rintro ⟨c, rest, rfl, hc, hrest⟩
    exact ⟨List.cons_ne_nil c rest, List.forall_mem_cons.mpr ⟨hc, mem_kstar_one.mp hrest⟩⟩
  · rintro ⟨hne, h⟩
    obtain ⟨c, rest, rfl⟩ := List.exists_cons_of_ne_nil hne
    obtain ⟨hc, hrest⟩ := List.forall_mem_cons.mp h
    exact ⟨c, rest, rfl, hc, mem_kstar_one.mpr hrest⟩

theorem mem_many_names {start next : Char → Prop} (hstart : ∀ c, start c → next c) :
    word ∈ many (many (one start) * (one next)∗) ↔
      ∃ c rest, word = c :: rest ∧ start c ∧ ∀ d ∈ rest, next d := by
  have hname : ∀ name ∈ many (one start) * (one next)∗,
      ∃ c rest, name = c :: rest ∧ start c ∧ ∀ d ∈ rest, next d := by
    intro name hmem
    rw [many, mul_assoc, mem_one_mul] at hmem
    obtain ⟨c, rest, rfl, hc, hrest⟩ := hmem
    obtain ⟨front, hfront, back, hback, rfl⟩ := Language.mem_mul.mp hrest
    refine ⟨c, front ++ back, rfl, hc, List.forall_mem_append.mpr ⟨?_, mem_kstar_one.mp hback⟩⟩
    exact fun d hd => hstart d (mem_kstar_one.mp hfront d hd)
  constructor
  · rintro ⟨first, hfirst, _, ⟨others, rfl, hothers⟩, rfl⟩
    obtain ⟨c, rest, rfl, hc, hrest⟩ := hname first hfirst
    refine ⟨c, rest ++ others.flatten, rfl, hc, List.forall_mem_append.mpr ⟨hrest, ?_⟩⟩
    intro d hd
    obtain ⟨other, hother, hmem⟩ := List.mem_flatten.mp hd
    obtain ⟨e, tail, rfl, he, htail⟩ := hname other (hothers other hother)
    rcases List.mem_cons.mp hmem with rfl | hmem
    · exact hstart d he
    · exact htail d hmem
  · rintro ⟨c, rest, rfl, hc, hrest⟩
    have hsingle : [c] ∈ many (one start) := mem_many_one.mpr ⟨by simp, by simpa using hc⟩
    have hword : [c] ++ rest ∈ many (one start) * (one next)∗ :=
      Language.append_mem_mul hsingle (mem_kstar_one.mpr hrest)
    simpa [many] using Language.append_mem_mul hword (Language.nil_mem_kstar _)

theorem classOf_eq {members : Char → Bool} (hlower : ∀ d, d.isLower = true → members d = true) :
    classOf members = one fun c => members (foldCase c) = true :=
  congrArg one (funext fun _ => propext (exists_folds_iff hlower))

theorem mem_spelled {name : Text} :
    word ∈ spelled name ↔ word.map foldCase = name.map foldCase := by
  induction name generalizing word with
  | nil => simp [spelled]
  | cons c name ih =>
      rw [spelled, mem_one_mul]
      simp only [ih]
      cases word with
      | nil => simp
      | cons d word => simp

theorem mem_sum_spelled {names : List Text} :
    word ∈ (names.map spelled).sum ↔ ∃ name ∈ names, word.map foldCase = name.map foldCase := by
  induction names with
  | nil => simp
  | cons name names ih =>
      rw [List.map_cons, List.sum_cons, Language.mem_add, mem_spelled, ih, List.exists_mem_cons_iff]

end Pattern

variable {text : Text}

/-- A name: a letter, an underscore or a dollar sign, and then any number of these and of digits. -/
def IsName (name : Text) : Prop :=
  ∃ c cs, name = c :: cs ∧ (IsLetter c ∨ c = '_' ∨ c = '$') ∧
    ∀ d ∈ cs, IsLetter d ∨ d = '_' ∨ d = '$' ∨ d.isDigit = true

theorem isReceiver_iff {name : Text} : isReceiver name = true ↔ IsName name := by
  simp only [IsName, ← startsReceiver_iff, ← continuesReceiver_iff]
  cases name with
  | nil => simp [isReceiver]
  | cons c cs => simp [isReceiver]

theorem isLogLevel_iff {name : Text} : isLogLevel name = true ↔ name.map foldCase ∈ logLevels := by
  have hlower : ∀ level ∈ logLevels, level.map foldCase = level := by decide
  rw [isLogLevel, List.any_eq_true]
  constructor
  · rintro ⟨level, hlevel, hsame⟩
    rw [sameFolded, beq_iff_eq, hlower level hlevel] at hsame
    rwa [hsame]
  · intro hlevel
    exact ⟨_, hlevel, by rw [sameFolded, beq_iff_eq, hlower _ hlevel]⟩

theorem isCallTail_iff {tail : Text} :
    isCallTail tail = true ↔
      ∃ arguments, tail = arguments ++ [';'] ∧ arguments ≠ [] ∧ '\n' ∉ arguments := by
  simp only [isCallTail, Bool.and_eq_true, decide_eq_true_eq, beq_iff_eq, Bool.not_eq_true',
    List.contains_eq_mem, decide_eq_false_iff_not]
  constructor
  · rintro ⟨⟨hlength, hlast⟩, hnewline⟩
    obtain ⟨arguments, rfl⟩ := List.getLast?_eq_some_iff.mp hlast
    refine ⟨arguments, rfl, ?_, fun hmem => hnewline (List.mem_append_left _ hmem)⟩
    rintro rfl
    exact absurd hlength (by decide)
  · rintro ⟨arguments, rfl, hne, hnewline⟩
    have hpos := List.length_pos_iff.mpr hne
    refine ⟨⟨?_, by simp⟩, by simp [hnewline]⟩
    rw [List.length_append, List.length_singleton]
    omega

/-- A text as `receiver.level(arguments;`, with the name of a logging method for a level. -/
structure Call.Form (text : Text) where
  receiver : Text
  level : Text
  arguments : Text
  text_eq : text = receiver ++ '.' :: (level ++ '(' :: (arguments ++ [';']))
  receiver_name : IsName receiver
  level_known : level.map foldCase ∈ logLevels
  arguments_ne_nil : arguments ≠ []
  newline_not_mem : '\n' ∉ arguments

theorem isLoggingCall_iff_form : isLoggingCall text = true ↔ Nonempty (Call.Form text.trim) := by
  rw [isLoggingCall_iff]
  constructor
  · rintro ⟨owner, level, tail, htext, hreceiver, hlevel, htail⟩
    obtain ⟨arguments, rfl, hne, hnewline⟩ := isCallTail_iff.mp htail
    exact ⟨⟨owner, level, arguments, htext, isReceiver_iff.mp hreceiver, isLogLevel_iff.mp hlevel,
      hne, hnewline⟩⟩
  · rintro ⟨form⟩
    exact ⟨form.receiver, form.level, form.arguments ++ [';'], form.text_eq,
      isReceiver_iff.mpr form.receiver_name, isLogLevel_iff.mpr form.level_known,
      isCallTail_iff.mpr ⟨form.arguments, rfl, form.arguments_ne_nil, form.newline_not_mem⟩⟩

namespace Call.Form

variable (form : Call.Form text)

theorem isReceiver_receiver : isReceiver form.receiver = true :=
  isReceiver_iff.mpr form.receiver_name

theorem isLogLevel_level : isLogLevel form.level = true :=
  isLogLevel_iff.mpr form.level_known

theorem eq_of_append {owner level rest : Text} (hdot : '.' ∉ owner) (hparen : '(' ∉ level)
    (htext : text = owner ++ '.' :: (level ++ '(' :: rest)) :
    form.receiver = owner ∧ form.level = level ∧ form.arguments ++ [';'] = rest := by
  have hreceiver : '.' ∉ form.receiver := not_mem_of_isReceiver form.isReceiver_receiver (by decide)
  have hlevel : '(' ∉ form.level := not_mem_of_isLogLevel form.isLogLevel_level (by decide)
  obtain ⟨howner, hrest⟩ := append_cons_inj hreceiver hdot (form.text_eq.symm.trans htext)
  obtain ⟨hname, htail⟩ := append_cons_inj hlevel hparen hrest
  exact ⟨howner, hname, htail⟩

/-- A text has the form of a call in one way only. -/
instance : Subsingleton (Call.Form text) where
  allEq form other := by
    obtain ⟨hreceiver, hlevel, htail⟩ := form.eq_of_append
      (not_mem_of_isReceiver other.isReceiver_receiver (by decide))
      (not_mem_of_isLogLevel other.isLogLevel_level (by decide)) other.text_eq
    have harguments := List.append_cancel_right htail
    cases form
    cases other
    subst hreceiver hlevel harguments
    rfl

end Call.Form

namespace Pattern

theorem mem_receiver {word : Text} : word ∈ receiver ↔ IsName word := by
  have hstart : classOf startsName = one (startsReceiver · = true) := by
    apply classOf_eq
    intro d hd
    simp [startsName, isAlpha_of_isLower hd]
  have hnext : classOf continuesName = one (continuesReceiver · = true) := by
    apply classOf_eq
    intro d hd
    simp [continuesName, startsName, isAlpha_of_isLower hd]
  rw [receiver, hstart, hnext, mem_many_names]
  · simp only [IsName, startsReceiver_iff, continuesReceiver_iff]
  · intro c hc
    rw [startsReceiver] at hc
    simp [continuesReceiver, continuesName, hc]

theorem mem_level {word : Text} : word ∈ level ↔ word.map foldCase ∈ logLevels := by
  rw [level, mem_sum_spelled, ← isLogLevel_iff, isLogLevel, List.any_eq_true]
  simp only [sameFolded, beq_iff_eq]

theorem mem_call_iff : text ∈ call ↔ Nonempty (Call.Form text) := by
  rw [call, Language.mem_mul]
  constructor
  · rintro ⟨receiver, hreceiver, _, hdot, rfl⟩
    obtain ⟨_, _, rfl, rfl, hafterDot⟩ := mem_one_mul.mp hdot
    obtain ⟨level, hlevel, _, hopen, rfl⟩ := Language.mem_mul.mp hafterDot
    obtain ⟨_, _, rfl, rfl, hinside⟩ := mem_one_mul.mp hopen
    obtain ⟨arguments, harguments, _, ⟨_, rfl, rfl⟩, rfl⟩ := Language.mem_mul.mp hinside
    obtain ⟨hne, hline⟩ := mem_many_one.mp harguments
    exact ⟨⟨receiver, level, arguments, rfl, mem_receiver.mp hreceiver, mem_level.mp hlevel, hne,
      fun hmem => hline _ hmem rfl⟩⟩
  · rintro ⟨receiver, level, arguments, rfl, hreceiver, hlevel, hne, hnewline⟩
    have harguments : arguments ∈ many (one (· ≠ '\n')) := by
      refine mem_many_one.mpr ⟨hne, ?_⟩
      rintro c hc rfl
      exact hnewline hc
    refine ⟨receiver, mem_receiver.mpr hreceiver, _, mem_one_mul.mpr ⟨_, _, rfl, rfl, ?_⟩, rfl⟩
    refine ⟨level, mem_level.mpr hlevel, _, mem_one_mul.mpr ⟨_, _, rfl, rfl, ?_⟩, rfl⟩
    exact ⟨arguments, harguments, _, ⟨_, rfl, rfl⟩, rfl⟩

end Pattern

theorem Pattern.mem_placeholder_iff : text ∈ placeholder ↔ ∃ digit between,
    text = '{' :: digit :: (between ++ ['}']) ∧ isDecimalDigit digit = true ∧ '\n' ∉ between := by
  rw [placeholder, mem_one_mul]
  constructor
  · rintro ⟨_, _, rfl, rfl, hrest⟩
    obtain ⟨digits, hdigits, _, hline, rfl⟩ := Language.mem_mul.mp hrest
    obtain ⟨between, hbetween, _, ⟨_, rfl, rfl⟩, rfl⟩ := Language.mem_mul.mp hline
    obtain ⟨hne, hdigits⟩ := mem_many_one.mp hdigits
    obtain ⟨digit, digits, rfl⟩ := List.exists_cons_of_ne_nil hne
    obtain ⟨hdigit, hdigits⟩ := List.forall_mem_cons.mp hdigits
    refine ⟨digit, digits ++ between, by simp, hdigit, fun hmem => ?_⟩
    rcases List.mem_append.mp hmem with hmem | hmem
    · exact absurd (hdigits _ hmem) (by decide)
    · exact mem_kstar_one.mp hbetween _ hmem rfl
  · rintro ⟨digit, between, rfl, hdigit, hnewline⟩
    refine ⟨_, _, rfl, rfl, [digit], mem_many_one.mpr ⟨by simp, by simpa using hdigit⟩, _,
      ⟨between, mem_kstar_one.mpr ?_, _, ⟨_, rfl, rfl⟩, rfl⟩, rfl⟩
    rintro c hc rfl
    exact hnewline hc

/-- A text is taken for a logging call exactly when it has the form of one once the blanks around it
are dropped, and for one with placeholders exactly when it holds a brace with a digit behind it that
is closed on the same line. In both cases this is what the patterns match. -/
theorem shapes_eq_grammars (text : Text) :
    (isLoggingCall text = true ↔ Nonempty (Call.Form text.trim)) ∧
      (isLoggingCall text = true ↔ text.trim ∈ Pattern.call) ∧
      (hasPlaceholder text = true ↔ ∃ before digit between after,
        text = before ++ '{' :: digit :: (between ++ '}' :: after) ∧ isDecimalDigit digit = true ∧
          '\n' ∉ between) ∧
      (hasPlaceholder text = true ↔ ∃ part, part <:+: text ∧ part ∈ Pattern.placeholder) := by
  refine ⟨isLoggingCall_iff_form, ?_, hasPlaceholder_iff, ?_⟩
  · rw [isLoggingCall_iff_form, Pattern.mem_call_iff]
  · rw [hasPlaceholder_iff]
    constructor
    · rintro ⟨before, digit, between, after, rfl, hdigit, hnewline⟩
      exact ⟨'{' :: digit :: (between ++ ['}']), ⟨before, after, by simp⟩,
        Pattern.mem_placeholder_iff.mpr ⟨digit, between, rfl, hdigit, hnewline⟩⟩
    · rintro ⟨part, ⟨before, after, rfl⟩, hpart⟩
      obtain ⟨digit, between, rfl, hdigit, hnewline⟩ := Pattern.mem_placeholder_iff.mp hpart
      exact ⟨before, digit, between, after, by simp, hdigit, hnewline⟩

end LogTemplate
