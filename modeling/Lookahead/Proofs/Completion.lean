import Lookahead.Editor
import Lookahead.Proofs.Reading
import Lookahead.Proofs.Tokenization

/-!
# Completion over a session

The names of an expression are visited in a fixed order (`visitedAll`), which is a rearrangement of
the order in which they stand in its text, so none is lost and none is added. What a session
remembers is an ascending list of the names of all its expressions (`mem_remembered`). The word at
the cursor is what is behind the last blank or parenthesis before it (`lastWord_append`). Together:
`complete_exact`.
-/

set_option autoImplicit false

namespace Lookahead

/-! ## Ascending lists of texts -/

namespace Text

theorem mem_insertSorted {text other : String} {known : List String} :
    other ∈ insertSorted text known ↔ other = text ∨ other ∈ known := by
  induction known with
  | nil => simp [insertSorted]
  | cons first rest ih =>
      unfold insertSorted
      split
      · rename_i same
        simp [same]
      · split
        · simp
        · simp only [List.mem_cons, ih]
          exact or_left_comm

theorem pairwise_insertSorted (text : String) {known : List String}
    (ascending : known.Pairwise (· < ·)) : (insertSorted text known).Pairwise (· < ·) := by
  induction known with
  | nil => simp [insertSorted]
  | cons first rest ih =>
      have ⟨above, behind⟩ := List.pairwise_cons.mp ascending
      unfold insertSorted
      by_cases same : text = first
      · simpa [same] using ascending
      by_cases smaller : text < first
      · simp only [same, smaller, if_true, if_false]
        refine .cons (fun other inside => ?_) ascending
        rcases List.mem_cons.mp inside with rfl | inside
        · exact smaller
        · exact String.lt_trans smaller (above _ inside)
      · have larger : first < text :=
          Std.lt_of_le_of_ne (String.not_lt.mp smaller) fun equal => same equal.symm
        simp only [same, smaller, if_false]
        refine .cons (fun other inside => ?_) (ih behind)
        rcases mem_insertSorted.mp inside with rfl | inside
        · exact larger
        · exact above _ inside

end Text

/-! ## The names of an expression -/

namespace SExpr

mutual

/-- The names in an argument in the order of the visit: each before those inside it, and arguments
from the last to the first. -/
def Arg.visited : Arg → List String
  | number _ => []
  | nested identifier args => identifier :: Arg.visitedAll args

def Arg.visitedAll : List Arg → List String
  | [] => []
  | arg :: args => Arg.visitedAll args ++ Arg.visited arg

end

def names (expression : SExpr) : List String :=
  expression.identifier :: Arg.namesAll expression.args

def visited (expression : SExpr) : List String :=
  expression.identifier :: Arg.visitedAll expression.args

theorem Arg.visitedAll_number (value : Binary64) (args : List Arg) :
    visitedAll (.number value :: args) = visitedAll args :=
  List.append_nil _

theorem Arg.visitedAll_nested (identifier : String) (inner args : List Arg) :
    visitedAll (.nested identifier inner :: args) =
      visitedAll args ++ identifier :: visitedAll inner :=
  rfl

theorem Arg.visitedAll_perm (args : List Arg) : (visitedAll args).Perm (namesAll args) := by
  induction args using Arg.inductionAll with
  | nil => exact .refl _
  | number value args ih => simpa [visitedAll_number, namesAll_number] using ih
  | nested identifier inner args ihInner ih =>
      rw [visitedAll_nested, namesAll_nested]
      exact List.perm_append_comm.trans ((ihInner.append ih).cons identifier)

theorem Arg.flatMap_visited_reverse (args : List Arg) :
    (args.filterMap expression?).reverse.flatMap SExpr.visited = visitedAll args := by
  induction args with
  | nil => rfl
  | cons arg args ih =>
      cases arg with
      | number value => rw [visitedAll_number, ← ih]; rfl
      | nested identifier inner =>
          rw [visitedAll_nested, ← ih]
          simp [expression?, SExpr.visited]

theorem identifiersFrom_eq (before : List String) (pending : List SExpr) :
    identifiersFrom before pending = before.reverse ++ pending.flatMap visited := by
  fun_induction identifiersFrom before pending with
  | case1 before => simp
  | case2 before expression pending ih =>
      rw [ih, List.flatMap_append, nested, Arg.flatMap_visited_reverse]
      simp [visited]

theorem identifiers_eq_visited (expression : SExpr) :
    expression.identifiers = expression.visited := by
  simp [identifiers, identifiersFrom_eq]

theorem identifiers_perm_names (expression : SExpr) :
    expression.identifiers.Perm expression.names := by
  rw [identifiers_eq_visited]
  exact (Arg.visitedAll_perm expression.args).cons _

end SExpr

/-! ## What is remembered -/

namespace Editor

theorem mem_remember {name : String} (known names : List String) :
    name ∈ remember known names ↔ name ∈ known ∨ name ∈ names := by
  induction names generalizing known with
  | nil => simp [remember]
  | cons first names ih =>
      have rest := ih (Text.insertSorted first known)
      simp only [remember, List.foldl_cons, Text.mem_insertSorted, List.mem_cons] at rest ⊢
      rw [rest, or_assoc]
      exact or_left_comm

theorem pairwise_remember (names : List String) {known : List String}
    (ascending : known.Pairwise (· < ·)) : (remember known names).Pairwise (· < ·) := by
  induction names generalizing known with
  | nil => exact ascending
  | cons first names ih => exact ih (Text.pairwise_insertSorted first ascending)

def learnAll (editor : Editor) (expressions : List SExpr) : Editor :=
  expressions.foldl (fun editor expression => editor.learn expression.identifiers) editor

theorem mem_learnAll {name : String} (editor : Editor) (expressions : List SExpr) :
    name ∈ (editor.learnAll expressions).known ↔
      name ∈ editor.known ∨ ∃ expression ∈ expressions, name ∈ expression.names := by
  induction expressions generalizing editor with
  | nil => simp [learnAll]
  | cons expression expressions ih =>
      have rest := ih (editor.learn expression.identifiers)
      have first : name ∈ (editor.learn expression.identifiers).known ↔
          name ∈ editor.known ∨ name ∈ expression.names := by
        rw [learn, mem_remember, expression.identifiers_perm_names.mem_iff]
      rw [first, or_assoc] at rest
      rw [List.exists_mem_cons_iff]
      exact rest

theorem pairwise_learnAll (expressions : List SExpr) {editor : Editor}
    (ascending : editor.known.Pairwise (· < ·)) :
    (editor.learnAll expressions).known.Pairwise (· < ·) := by
  induction expressions generalizing editor with
  | nil => exact ascending
  | cons expression expressions ih =>
      exact ih (pairwise_remember expression.identifiers ascending)

/-! ## The word at the cursor -/

def IsDelimiter (c : Char) : Prop :=
  Text.isBlank c = true ∨ c = '(' ∨ c = ')'

theorem isWordRest_eq_false_iff {c : Char} : SExpr.isWordRest c = false ↔ IsDelimiter c := by
  simp only [SExpr.isWordRest, IsDelimiter, Bool.not_eq_false', Bool.or_eq_true, beq_iff_eq,
    or_assoc]

theorem lastWord_append {before word : List Char} (ends : ∀ c ∈ before.getLast?, IsDelimiter c)
    (inner : ∀ c ∈ word, ¬ IsDelimiter c) : lastWord (before ++ word) = word := by
  have reversed : ∀ c ∈ word.reverse, SExpr.isWordRest c = true := by
    intro c inside
    rw [← Bool.not_eq_false, isWordRest_eq_false_iff]
    exact inner c (List.mem_reverse.mp inside)
  have stops : before.reverse.takeWhile SExpr.isWordRest = [] := by
    cases first : before.reverse with
    | nil => rfl
    | cons c others =>
        have last : c ∈ before.getLast? := by
          rw [List.getLast?_eq_head?_reverse, first]
          rfl
        rw [List.takeWhile_cons, isWordRest_eq_false_iff.mpr (ends c last)]
        rfl
  rw [lastWord, List.reverse_append, List.takeWhile_append_of_pos reversed, stops,
    List.append_nil, List.reverse_reverse]

theorem complete_of_cutAt? (known : List String) {line : String} {position : Nat}
    {before word after : List Char}
    (cut : Text.cutAt? position line.toList = some (before ++ word, after))
    (ends : ∀ c ∈ before.getLast?, IsDelimiter c) (inner : ∀ c ∈ word, ¬ IsDelimiter c) :
    complete known line position = .ok ⟨Text.byteLength before, candidates known word⟩ := by
  have place : position - Text.byteLength word = Text.byteLength before := by
    rw [(Text.cutAt?_eq_some_iff.mp cut).2, Text.byteLength_append, Nat.add_sub_cancel]
  simp only [complete, cut, lastWord_append ends inner, place]

/-- Once the names of any expressions were remembered, a word is completed to those of them that
start with it, at every place in every line. -/
theorem complete_exact (expressions : List SExpr) (word : List Char)
    (inner : ∀ c ∈ word, ¬ IsDelimiter c) :
    ∃ names : List String,
      names.Pairwise (· < ·) ∧
      (∀ name, name ∈ names ↔
        (∃ expression ∈ expressions, name ∈ expression.names) ∧ word <+: name.toList) ∧
      ∀ (line : String) (position : Nat) (before after : List Char),
        Text.cutAt? position line.toList = some (before ++ word, after) →
        (∀ c ∈ before.getLast?, IsDelimiter c) →
        complete (empty.learnAll expressions).known line position =
          .ok ⟨Text.byteLength before, names.map fun name => ⟨name, name⟩⟩ := by
  refine ⟨(empty.learnAll expressions).known.filter fun name => word.isPrefixOf name.toList,
    (pairwise_learnAll expressions .nil).filter _, ?_, ?_⟩
  · intro name
    rw [List.mem_filter, mem_learnAll, List.isPrefixOf_iff_prefix]
    simp [empty]
  · intro line position before after cut ends
    exact complete_of_cutAt? _ cut ends inner

def session : List SExpr :=
  [⟨"sum", [.nested "sub" [.nested "_s" []], .nested "mul" []]⟩, ⟨"sub", [.nested "sum" []]⟩]

theorem complete_exact_session :
    (∀ c ∈ ['s', 'u'], ¬ IsDelimiter c) ∧
    ∃ names : List String,
      names.Pairwise (· < ·) ∧
      (∀ name, name ∈ names ↔
        (∃ expression ∈ session, name ∈ expression.names) ∧ ['s', 'u'] <+: name.toList) ∧
      complete (empty.learnAll session).known "(sum\u3000su (b" 9 =
        .ok ⟨7, names.map fun name => ⟨name, name⟩⟩ := by
  have inner : ∀ c ∈ ['s', 'u'], ¬ IsDelimiter c := by
    simp [IsDelimiter, Text.isBlank]
  obtain ⟨names, ascending, exact, completes⟩ := complete_exact session ['s', 'u'] inner
  refine ⟨inner, names, ascending, exact, ?_⟩
  refine completes "(sum\u3000su (b" 9 ['(', 's', 'u', 'm', '\u3000'] [' ', '(', 'b'] rfl ?_
  simp [IsDelimiter, Text.isBlank]

example : complete (empty.learnAll session).known "(sum\u3000su (b" 9 =
    .ok ⟨7, [⟨"sub", "sub"⟩, ⟨"sum", "sum"⟩]⟩ := by cbv

end Editor

end Lookahead
