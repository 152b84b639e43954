import FormulaEngine.Failure
import FormulaEngine.Token.Reader

/-!
# Reading trees

The tree of a text is assembled from the tokens of the text.  What goes wrong
in either step is a failure of the text.
-/

namespace FormulaEngine

/-- The tree of a text. -/
def Tree.read (p : Punctuation) (scope : Scope) (text : String) : Except Failure Tree :=
  match tokenize p text with
  | .error e => .error (.of text (.lexical e))
  | .ok tokens =>
    match Tree.ofTokens scope tokens with
    | .error e => .error (.of text (.parse e))
    | .ok tree => .ok tree

/-- The tree of a text is assembled from its tokens. -/
theorem Tree.exists_ofTokens_of_read {p : Punctuation} {scope : Scope} {text : String}
    {tree : Tree} (h : Tree.read p scope text = .ok tree) :
    ∃ tokens, tokenize p text = .ok tokens ∧ Tree.ofTokens scope tokens = .ok tree := by
  unfold Tree.read at h
  split at h
  · cases h
  · rename_i tokens htokens
    split at h
    · cases h
    · rename_i hassemble
      cases h
      exact ⟨tokens, htokens, hassemble⟩

end FormulaEngine
