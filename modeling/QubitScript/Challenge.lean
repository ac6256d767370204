import QubitScript.Number.Notation
import QubitScript.Pattern.Compiled

/-!
# Challenges

Small tasks that a user completes by typing a line that holds a match of a pattern. A book over a
table of challenges awards those that a line completes, unless their ids were awarded before it.
-/

namespace QubitScript

structure Challenge where
  id : UInt32
  description : String
  difficulty : Float
  reward : UInt32
  pattern : Option String
deriving Repr

/-- The built-in challenges. One without a pattern cannot be completed by typing a line. -/
def defaultChallenges : List Challenge :=
  [{ id := 1
     description := "Entangle two particles"
     difficulty := 1
     reward := 10
     pattern := some "\\w*(ENTANGLE|E|e|entangle|Entangle)\\((\\w+,\\w+)\\)\\w*" },
   { id := 2
     description := "Use a hadamard gate for the first time"
     difficulty := 0.5
     reward := 5
     pattern := some "\\w*(hadamard|h|H|HADAMARD)\\((\\w+|(\\w*,\\w+)+)\\)\\w*" },
   { id := 3
     description := "Teleport a particle"
     difficulty := 2.5
     reward := 50
     pattern := none }]

/-- The record of a completed challenge. -/
structure Award where
  challengeId : UInt32
  reward : UInt32
deriving DecidableEq, Repr

def Challenge.award (challenge : Challenge) : Award := ⟨challenge.id, challenge.reward⟩

/-- Challenges with the patterns that could be compiled, and the awards earned so far, oldest
first. -/
structure ChallengeBook where
  challenges : List (Challenge × Option Regex)
  awards : List Award

namespace ChallengeBook

/-- How the patterns of challenges are read. -/
def dialect : Pattern.Dialect := ⟨false, false⟩

/-- A book over a table of challenges, with a pattern engine. A challenge whose pattern does not
compile is kept, but can never be completed. -/
def ofChallengesWith (engine : Engine) (challenges : List Challenge) : ChallengeBook :=
  ⟨challenges.map fun challenge =>
    (challenge, challenge.pattern.bind fun pattern =>
      (engine.compile dialect pattern).toOption), []⟩

/-- A book over a table of challenges, with the engine for written patterns. -/
def ofChallenges (challenges : List Challenge) : ChallengeBook :=
  ofChallengesWith Pattern.engine challenges

def default : ChallengeBook := ofChallenges defaultChallenges

def isAwarded (book : ChallengeBook) (id : UInt32) : Bool := book.awards.any (·.challengeId == id)

/-- The challenges that a line completes and that had not been awarded before it. -/
def completed (book : ChallengeBook) (line : String) : List Challenge :=
  (book.challenges.filter fun (challenge, pattern) =>
    !book.isAwarded challenge.id && pattern.any (·.occursIn line)).map (·.1)

/-- Awards the challenges that a line completes. -/
def check (book : ChallengeBook) (line : String) : ChallengeBook :=
  { book with awards := book.awards ++ (book.completed line).map Challenge.award }

/-- The book with one more award. -/
def record (book : ChallengeBook) (challenge : Challenge) : ChallengeBook :=
  { book with awards := book.awards ++ [challenge.award] }

/-- Records an award and then tells a hook of it. -/
def recordTelling {m : Type → Type} [Monad m] (tell : Challenge → m Unit) (book : ChallengeBook)
    (challenge : Challenge) : m ChallengeBook := do
  let book := book.record challenge
  tell challenge
  return book

/-- Awards the challenges that a line completes one after another, and tells a hook of each. -/
def checkTelling {m : Type → Type} [Monad m] (tell : Challenge → m Unit) (book : ChallengeBook)
    (line : String) : m ChallengeBook :=
  (book.completed line).foldlM (recordTelling tell) book

/-- Adds a reward to a total, which has 32 bits. -/
def addReward? (total reward : UInt32) : Option UInt32 :=
  if total.toNat + reward.toNat < UInt32.size then some (total + reward) else none

/-- The sum of the rewards. There is none beyond 32 bits, where adding stops the program or wraps
around. -/
def totalReward? (book : ChallengeBook) : Option UInt32 :=
  (book.awards.map (·.reward)).foldlM addReward? 0

/-- A summary of the book for debugging. -/
def debug (book : ChallengeBook) : String :=
  let award (award : Award) : String :=
    "Award \x7b challenge_id: " ++ toString award.challengeId ++ ", reward: " ++
      toString award.reward ++ " \x7d"
  "ChallengeBook \x7b challenges: " ++ toString book.challenges.length ++ ", awards: [" ++
    ", ".intercalate (book.awards.map award) ++ "], .. \x7d"

end ChallengeBook

end QubitScript
