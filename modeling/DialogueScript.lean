import DialogueScript.Log
import DialogueScript.Parse
import DialogueScript.Proofs.Attachment
import DialogueScript.Proofs.Concatenation
import DialogueScript.Proofs.Objects
import DialogueScript.Proofs.BlankLines
import DialogueScript.Proofs.Capture
import DialogueScript.Proofs.Conforming
import DialogueScript.Proofs.Contexts
import DialogueScript.Proofs.BlockComments
import DialogueScript.Proofs.LineComments
import DialogueScript.Proofs.WellFormed
import DialogueScript.Proofs.Failures
import DialogueScript.Proofs.Folding
import DialogueScript.Proofs.FoldedLines
import DialogueScript.Proofs.RuleLines
import DialogueScript.Proofs.JoinMarks
import DialogueScript.Proofs.FoldedDefinitions
import DialogueScript.Proofs.ObjectLabels
import DialogueScript.Proofs.Conditions
import DialogueScript.Proofs.DefinitionForms
import DialogueScript.Proofs.Patterns
import DialogueScript.Proofs.Versions
import DialogueScript.Proofs.Topics
import DialogueScript.Proofs.Growth
import DialogueScript.Proofs.WarningOrder
import DialogueScript.Proofs.ArrayForms
import DialogueScript.Proofs.LineEndings
import DialogueScript.Proofs.Independence
import DialogueScript.Proofs.Positions
import DialogueScript.Proofs.Splitting
