import LetScript.Main
import LetScript.Proofs.Program.Nodes
import LetScript.Proofs.Program.Rereading
import LetScript.Proofs.Reading.ClosedForm
import LetScript.Proofs.Reading.Deletion
import LetScript.Proofs.Reading.Integer
import LetScript.Proofs.Reading.Juxtaposition
import LetScript.Proofs.Reading.Resumption
import LetScript.Proofs.Reading.Termination
import LetScript.Proofs.Reading.Window
import LetScript.Proofs.Reading.Window
import LetScript.Proofs.Shell.Dialogue
import LetScript.Proofs.Source.Caret
import LetScript.Proofs.Source.Place
import LetScript.Proofs.Source.Rendering
import LetScript.Proofs.Token.ByteScanner.Safety
import LetScript.Proofs.Token.Concatenation
import LetScript.Proofs.Token.Copies
import LetScript.Proofs.Token.Tokenization
