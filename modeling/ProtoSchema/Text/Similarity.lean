/-!
# Similar words

Two words are compared by the letters they share in order: those of the longest block that is in
both, and in turn those that are shared before it and behind it. Words are similar if at least three
fifths of all their letters are shared.
-/

namespace ProtoSchema.Similarity

/-- How many letters two words have in common at their beginnings. -/
def commonStart : List Char → List Char → Nat
  | a :: as, b :: bs => if a = b then commonStart as bs + 1 else 0
  | _, _ => 0

/-- A block of letters that stands in two words, at a place in each. -/
structure Block where
  first : Nat
  second : Nat
  length : Nat
  deriving DecidableEq, Repr

/-- The longest block in both words; of several, the one that comes first in the first word, and
then in the second one. -/
def longestBlock (a b : List Char) : Block :=
  let blocks := (List.range a.length).flatMap fun i => (List.range b.length).map fun j =>
    Block.mk i j (commonStart (a.drop i) (b.drop j))
  blocks.foldl (fun best block => if best.length < block.length then block else best) ⟨0, 0, 0⟩

/-- How many letters two words share. -/
def sharedLetters (a b : List Char) : Nat :=
  let block := longestBlock a b
  if h : 0 < block.length ∧ block.first < a.length then
    have : min block.first a.length < a.length := by omega
    have : a.length - (block.first + block.length) < a.length := by omega
    block.length + sharedLetters (a.take block.first) (b.take block.second) +
      sharedLetters (a.drop (block.first + block.length)) (b.drop (block.second + block.length))
  else 0
  termination_by a.length
  decreasing_by all_goals simpa only [List.length_take, List.length_drop]

/-- A word that may have been meant, with the letters it shares with the one that was given and the
letters of both. -/
structure Candidate where
  word : String
  shared : Nat
  letters : Nat
  deriving DecidableEq, Repr

namespace Candidate

/-- How a word compares with the one that was given. -/
def ofWord (given word : String) : Candidate :=
  ⟨word, sharedLetters word.toList given.toList, word.length + given.length⟩

/-- Whether the words are similar. -/
def isSimilar (c : Candidate) : Bool := 3 * c.letters ≤ 10 * c.shared

/-- Whether a candidate comes before another one: it shares more, or as much and is the greater
word. -/
def isBefore (c d : Candidate) : Bool :=
  d.shared * c.letters < c.shared * d.letters ∨
    (d.shared * c.letters = c.shared * d.letters ∧ d.word ≤ c.word)

end Candidate

/-- The number of similar words that are considered. -/
def mostSimilar : Nat := 3

/-- The words that are similar to the one that was given, the most similar ones first. -/
def similarWords (given : String) (words : List String) : List String :=
  let similar := (words.map (Candidate.ofWord given)).filter Candidate.isSimilar
  ((similar.mergeSort Candidate.isBefore).take mostSimilar).map Candidate.word

end ProtoSchema.Similarity
