import QubitScript.Main
import QubitScript.Proofs.Lexer.FirstRule
import QubitScript.Proofs.Line.Refusals
import QubitScript.Proofs.Line.Retokenizing
import QubitScript.Proofs.Session.LineNumbers
import QubitScript.Proofs.Session.Replay
import QubitScript.Proofs.Expr.Integers
import QubitScript.Proofs.Session.Interference
import QubitScript.Proofs.Expr.Raising
import QubitScript.Proofs.Session.Skipping
import QubitScript.Proofs.Session.Scripts
import QubitScript.Proofs.Lexer.Preferences
import QubitScript.Proofs.Quantum.Refusing
import QubitScript.Proofs.Line.Detached
import QubitScript.Proofs.Quantum.InPlace
import QubitScript.Proofs.Session.Awarding
import QubitScript.Proofs.Line.Nesting
import QubitScript.Proofs.Quantum.Exact
import QubitScript.Proofs.Quantum.Permuting
import QubitScript.Proofs.Quantum.Weight
import QubitScript.Proofs.Quantum.Growing
import QubitScript.Proofs.Quantum.Commuting
import QubitScript.Proofs.Session.Ledger
import QubitScript.Proofs.Session.ReadingBack
import QubitScript.Proofs.Session.Independence
import QubitScript.Proofs.Expr.TokenLines
import QubitScript.Proofs.Lexer.Building
import QubitScript.Proofs.Lexer.Lines
