import CrudLayers.Main
import CrudLayers.Program.Scene
import CrudLayers.Proofs.Delegation
import CrudLayers.Proofs.Edits
import CrudLayers.Proofs.Identifiers
import CrudLayers.Proofs.ImportReading
import CrudLayers.Proofs.Independence
import CrudLayers.Proofs.Leafwise
import CrudLayers.Proofs.LineChanges
import CrudLayers.Proofs.Members
import CrudLayers.Proofs.NameRecovery
import CrudLayers.Proofs.Precedence
import CrudLayers.Proofs.Prediction
import CrudLayers.Proofs.RelationVariable
import CrudLayers.Proofs.Relations
import CrudLayers.Proofs.Rendering
import CrudLayers.Proofs.Requests
import CrudLayers.Proofs.Resolution
import CrudLayers.Proofs.Rollback
import CrudLayers.Proofs.Sequence
import CrudLayers.Proofs.Surface
import CrudLayers.Proofs.Writable
