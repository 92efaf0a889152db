import LogTemplate.Proofs.Proposal.Origin

namespace LogTemplate

namespace Logger

variable {types : LoggerTypes} {lines : List Text} {line type receiver : Text}

/-- A character of a type as it is written: of a name, or the dot between names. -/
def continuesType (c : Char) : Bool :=
  continuesName c || c == '.'

/-- The line declares a variable with the type that is written: neither the type nor the name of the
variable goes on beyond the declaration. -/
def DeclaredAs (line type receiver : Text) : Prop :=
  ∃ before after, normalize line = before ++ (declaration type receiver ++ after) ∧
    before.getLast?.any continuesType = false ∧ after.head?.any continuesName = false

theorem declaredAs_iff :
    DeclaredAs line type receiver ↔ ∃ n < (normalize line).length + 1,
      declaration type receiver <+: (normalize line).drop n ∧
      ((normalize line).take n).getLast?.any continuesType = false ∧
      (((normalize line).drop n).drop (declaration type receiver).length).head?.any
        continuesName = false := by
  constructor
  · rintro ⟨before, after, hline, hbefore, hafter⟩
    rw [hline]
    refine ⟨before.length, ?_, ?_, ?_, ?_⟩
    · rw [List.length_append]
      omega
    · rw [List.drop_left]
      exact List.prefix_append _ _
    · rwa [List.take_left]
    · rwa [List.drop_left, List.drop_left]
  · rintro ⟨n, -, ⟨after, hafter⟩, hbefore, hend⟩
    rw [← hafter, List.drop_left] at hend
    exact ⟨_, after, by rw [hafter, List.take_append_drop], hbefore, hend⟩

instance : Decidable (DeclaredAs line type receiver) :=
  decidable_of_iff' _ declaredAs_iff

theorem exists_append_of_declaresFrom {declaration : Text} {skip : Nat}
    (h : declaresFrom declaration skip line = true) :
    ∃ before after, line = before ++ (declaration ++ after) ∧
      after.head?.any continuesName = false := by
  fun_induction declaresFrom declaration skip line with
  | case1 => cases h
  | case2 skip c cs ih =>
      obtain ⟨before, after, rfl, hafter⟩ := ih h
      exact ⟨c :: before, after, rfl, hafter⟩
  | case3 c cs hfound hgoes ih =>
      obtain ⟨before, after, rfl, hafter⟩ := ih h
      exact ⟨c :: before, after, rfl, hafter⟩
  | case4 c cs hfound hends =>
      obtain ⟨after, hline⟩ := List.isPrefixOf_iff_prefix.mp hfound
      rw [← hline, List.drop_left] at hends
      refine ⟨[], after, hline.symm, ?_⟩
      cases after with
      | nil => rfl
      | cons d after => simpa using hends
  | case5 c cs hmissed ih =>
      obtain ⟨before, after, rfl, hafter⟩ := ih h
      exact ⟨c :: before, after, rfl, hafter⟩

theorem exists_append_continuesType (u : Text) :
    ∃ before front, u = before ++ front ∧ (∀ c ∈ front, continuesType c = true) ∧
      before.getLast?.any continuesType = false := by
  refine ⟨(u.reverse.dropWhile continuesType).reverse, (u.reverse.takeWhile continuesType).reverse,
    ?_, ?_, ?_⟩
  · rw [← List.reverse_append, List.takeWhile_append_dropWhile, List.reverse_reverse]
  · intro c hc
    exact List.mem_takeWhile_imp (List.mem_reverse.mp hc)
  · rw [List.getLast?_reverse, Option.any_eq_false]
    intro c hc
    have hhead := List.head?_dropWhile_not continuesType u.reverse
    rw [hc] at hhead
    simpa using hhead

theorem exists_declaredAs_of_declares
    (h : declares (normalize line) (declaration type receiver) = true) :
    ∃ front, (∀ c ∈ front, continuesType c = true) ∧ DeclaredAs line (front ++ type) receiver := by
  obtain ⟨u, after, hline, hafter⟩ := exists_append_of_declaresFrom h
  obtain ⟨before, front, rfl, hfront, hbefore⟩ := exists_append_continuesType u
  exact ⟨front, hfront, before, after, by simp [hline, declaration], hbefore, hafter⟩

/-- The names by which the declaration of a standard logger is found: the full one, and, given the
import, the short names of both types. -/
def standardNames (types : LoggerTypes) : List Text :=
  [types.standard, simpleName types.standard, simpleName types.log4j]

theorem exists_declares_of_declaredBy {imported : Option Library} {resolution : Resolution}
    (h : declaredBy types receiver imported line = some resolution)
    (hlibrary : resolution.library? = some .standard) :
    ∃ type ∈ standardNames types, declares (normalize line) (declaration type receiver) = true ∧
      (type = types.standard ∨ imported = some .standard) := by
  simp only [declaredBy] at h
  split at h
  next hstandard => exact ⟨types.standard, by simp [standardNames], hstandard, .inl rfl⟩
  next =>
    split at h
    next =>
      rw [← Option.some.inj h] at hlibrary
      cases hlibrary
    next =>
      split at h
      next hshort =>
        have himported : imported = some .standard := by
          rw [← Option.some.inj h] at hlibrary
          cases imported with
          | none => cases hlibrary
          | some library => exact hlibrary
        rcases Bool.or_eq_true_iff.mp hshort with hshort | hshort
        · exact ⟨simpleName types.standard, by simp [standardNames], hshort, .inr himported⟩
        · exact ⟨simpleName types.log4j, by simp [standardNames], hshort, .inr himported⟩
      next => cases h

theorem exists_declaredAs_of_resolve
    (h : (resolve types lines receiver).library? = some .standard) :
    ∃ line ∈ (splitHeader lines).2, ∃ type ∈ standardNames types, ∃ front,
      (∀ c ∈ front, continuesType c = true) ∧ DeclaredAs line (front ++ type) receiver ∧
      (type = types.standard ∨ lastImport types (splitHeader lines).1 = some .standard) := by
  simp only [resolve] at h
  cases hfind : (splitHeader lines).2.findSome?
      (declaredBy types receiver (lastImport types (splitHeader lines).1)) with
  | none =>
      rw [hfind] at h
      cases h
  | some resolution =>
      rw [hfind] at h
      obtain ⟨line, hline, hdeclared⟩ := List.exists_of_findSome?_eq_some hfind
      obtain ⟨type, htype, hdeclares, himport⟩ := exists_declares_of_declaredBy hdeclared h
      obtain ⟨front, hfront, hwritten⟩ := exists_declaredAs_of_declares hdeclares
      exact ⟨line, hline, type, htype, front, hfront, hwritten, himport⟩

end Logger

namespace Formatter

open Logger

variable {settings : Settings} {lines : List Text} {trigger : Nat} {proposal : Proposal}

/-- A call is replaced only if its receiver is declared, from the first brace on, with a type that
ends in one of the names of a standard logger; behind a short name there is the import. Where no
type that is written in front of the receiver goes beyond such a name, the receiver is declared with
one of these types itself. -/
theorem declaredAs_of_propose (h : propose settings lines trigger = .ok (.proposed proposal)) :
    ∃ call, Call.split? proposal.statement.code = some call ∧
      (∃ line ∈ (splitHeader lines).2, ∃ type ∈ standardNames settings.loggers, ∃ front,
        (∀ c ∈ front, continuesType c = true) ∧ DeclaredAs line (front ++ type) call.receiver ∧
        (type = settings.loggers.standard ∨
          lastImport settings.loggers (splitHeader lines).1 = some .standard)) ∧
      ((∀ line ∈ (splitHeader lines).2, ∀ type ∈ standardNames settings.loggers, ∀ front,
          DeclaredAs line (front ++ type) call.receiver →
            front ++ type ∈ standardNames settings.loggers) →
        ∃ line ∈ (splitHeader lines).2, ∃ type ∈ standardNames settings.loggers,
          DeclaredAs line type call.receiver) := by
  obtain ⟨-, ⟨origin⟩⟩ := nonempty_origin_of_offer (offer_of_propose h).2
  have hsplit : Call.split? proposal.statement.code = some origin.layout.call :=
    Call.split?_eq_some_iff.mpr ⟨origin.layout, origin.code_eq, rfl⟩
  obtain ⟨line, hline, type, htype, front, hfront, hdeclared, himport⟩ :=
    exists_declaredAs_of_resolve origin.standard
  refine ⟨_, hsplit, ⟨line, hline, type, htype, front, hfront, hdeclared, himport⟩, ?_⟩
  intro hwhole
  exact ⟨line, hline, front ++ type, hwhole line hline type htype front hdeclared, hdeclared⟩

/-- A logger of another library, whose type has the short name of the standard one. -/
def foreignLines : List Text :=
  ["import java.util.logging.Logger;", "class A \x7b", " com.acme.Logger log;",
    " log.info(\"id:\" + id);", "\x7d"].map String.toList

def foreignProposal : Proposal where
  span := ⟨⟨3, 1⟩, ⟨3, 22⟩⟩
  replacement := "log.log(Level.INFO, \"id:\x7b0\x7d\", id);".toList
  statement := ⟨"log.info(\"id:\" + id);".toList, 3, 3⟩
  template := ⟨"\"id:\x7b0\x7d\"".toList, ["id".toList]⟩

theorem foreignProposal_not_declared :
    propose .default foreignLines 3 = .ok (.proposed foreignProposal) ∧
      (∃ call, Call.split? foreignProposal.statement.code = some call ∧
        ∃ line ∈ (splitHeader foreignLines).2, ∃ type ∈ standardNames Settings.default.loggers,
          ∃ front, DeclaredAs line (front ++ type) call.receiver) ∧
      ∀ line ∈ (splitHeader foreignLines).2, ∀ type ∈ standardNames Settings.default.loggers,
        ¬DeclaredAs line type "log".toList := by
  have hpropose : propose .default foreignLines 3 = .ok (.proposed foreignProposal) := by
    decide +kernel
  obtain ⟨call, hsplit, ⟨line, hline, type, htype, front, -, hdeclared, -⟩, -⟩ :=
    declaredAs_of_propose hpropose
  exact ⟨hpropose, ⟨call, hsplit, line, hline, type, htype, front, hdeclared⟩, by decide +kernel⟩

end Formatter

end LogTemplate
