import CentNode.Library.StdMap

/-!
# Memoized questions about a changing world

A question is answered from a map of earlier answers when it is there, and is
computed and stored otherwise; questions without an answer are not stored.  The
map is transparent exactly if every stored answer is the one that would be
computed now, and questions keep it so.
-/

namespace Memo

variable {World Question Answer : Type} [DecidableEq Question]
  (fresh : World → Question → Option Answer)

def ask (world : World) (stored : StdMap Question Answer) (question : Question) :
    Option Answer × StdMap Question Answer :=
  match stored.lookup question with
  | some answer => (some answer, stored)
  | none =>
    match fresh world question with
    | some answer => (some answer, stored.insert question answer)
    | none => (none, stored)

/-- Every stored answer is the one that the world gives. -/
def Sound (world : World) (stored : StdMap Question Answer) : Prop :=
  ∀ question answer, stored.lookup question = some answer → fresh world question = some answer

variable {fresh} {world : World} {stored : StdMap Question Answer}

theorem ask_of_stored {question : Question} {answer : Answer}
    (found : stored.lookup question = some answer) :
    ask fresh world stored question = (some answer, stored) := by
  rw [ask, found]

theorem ask_of_new {question : Question} (new : stored.lookup question = none) :
    (ask fresh world stored question).1 = fresh world question := by
  rw [ask, new]
  cases answered : fresh world question with
  | none => rfl
  | some answer => rfl

theorem ask_again (question : Question) :
    (ask fresh world (ask fresh world stored question).2 question).1 =
      (ask fresh world stored question).1 := by
  cases found : stored.lookup question with
  | some answer => rw [ask_of_stored found, ask_of_stored found]
  | none =>
    cases answered : fresh world question with
    | none =>
      have unchanged : ask fresh world stored question = (none, stored) := by
        rw [ask, found, answered]
      rw [unchanged, unchanged]
    | some answer =>
      have stores : ask fresh world stored question =
          (some answer, stored.insert question answer) := by
        rw [ask, found, answered]
      rw [stores, ask_of_stored (AList.lookup_insert stored)]

theorem sound_empty : Sound fresh world ∅ := by
  intro question answer impossible
  rw [AList.lookup_empty] at impossible
  cases impossible

theorem sound_iff_transparent :
    Sound fresh world stored ↔
      ∀ question, (ask fresh world stored question).1 = fresh world question := by
  constructor
  · intro sound question
    cases found : stored.lookup question with
    | none => exact ask_of_new found
    | some answer => rw [ask_of_stored found, sound question answer found]
  · intro transparent question answer found
    rw [← transparent question, ask_of_stored found]

theorem ask_keeps_sound (sound : Sound fresh world stored) (question : Question) :
    Sound fresh world (ask fresh world stored question).2 := by
  unfold ask
  split
  · exact sound
  · split
    case h_1 answer answered =>
      intro other value found
      rw [StdMap.lookup_insert_ite] at found
      split at found
      case isTrue same =>
        cases found
        rw [same, answered]
      case isFalse => exact sound other value found
    case h_2 => exact sound

theorem lookup_ask_of_ne {question other : Question} (differs : other ≠ question) :
    (ask fresh world stored question).2.lookup other = stored.lookup other := by
  unfold ask
  split
  · rfl
  · split
    · exact AList.lookup_insert_ne differs
    · rfl

end Memo
