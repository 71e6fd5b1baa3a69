import GoSource.Main
import GoSource.Proofs.Arena.Interning
import GoSource.Proofs.Arena.Outlined
import GoSource.Proofs.Arena.Parse
import GoSource.Proofs.Contents.Braces
import GoSource.Proofs.Contents.Covered
import GoSource.Proofs.Contents.Declared
import GoSource.Proofs.Contents.Guards
import GoSource.Proofs.Contents.Parameters
import GoSource.Proofs.Contents.Placement
import GoSource.Proofs.Contents.Shape
import GoSource.Proofs.Documentation.Lines
import GoSource.Proofs.Documentation.Parse
import GoSource.Proofs.Lexing.Ending
import GoSource.Proofs.Lexing.LineEnds
import GoSource.Proofs.Lexing.Partition
import GoSource.Proofs.Lexing.Relexing
import GoSource.Proofs.Literals.Escapes
import GoSource.Proofs.Literals.Printed
import GoSource.Proofs.Literals.Quoted
import GoSource.Proofs.Literals.Scanned
import GoSource.Proofs.Nesting.Bound
import GoSource.Proofs.Package.Directory
import GoSource.Proofs.Parting.Parse
import GoSource.Proofs.Rendering.Operators
import GoSource.Proofs.Running.Rejection
import GoSource.Proofs.Running.Restored
import GoSource.Proofs.Scope.Checking
import GoSource.Proofs.Scope.Interleaving
import GoSource.Proofs.Scope.Lookup
import GoSource.Proofs.Scope.Methods
import GoSource.Proofs.Storage.Parse
