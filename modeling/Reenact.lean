import Reenact.Main
import Reenact.Proofs.Session
import Reenact.Proofs.Declarations
import Reenact.Proofs.TextKeys
import Reenact.Proofs.Refusal
import Reenact.Proofs.Isolation
import Reenact.Proofs.Evaluation
import Reenact.Proofs.Resolving
import Reenact.Proofs.Preamble
import Reenact.Proofs.Paths
import Reenact.Proofs.Readback
import Reenact.Proofs.Journals
import Reenact.Proofs.Hoisting
import Reenact.Proofs.OneLine
import Reenact.Proofs.Reports
import Reenact.Proofs.SessionLocals
import Reenact.Proofs.BracketLevels
import Reenact.Proofs.Traces
import Reenact.Proofs.Spellings
import Reenact.Proofs.Offences
import Reenact.Proofs.SortedTables
import Reenact.Proofs.Presorting
import Reenact.Proofs.Indentation
import Reenact.Proofs.Comments
import Reenact.Proofs.NumberTexts
import Reenact.Proofs.KeyPreorder
