import SdkUsage.Ty.Json
import SdkUsage.Proofs.Scope.Edit
import SdkUsage.Proofs.Scope.Mirror
import SdkUsage.Proofs.Inference.Handler
import SdkUsage.Proofs.Token.Twin
import SdkUsage.Proofs.Grammar.Quotes
import SdkUsage.Proofs.Composition
import SdkUsage.Proofs.ReadBack.Expression
import SdkUsage.Proofs.ReadBack.Block
import SdkUsage.Proofs.Inference.Kind
import SdkUsage.Proofs.Invariance
import SdkUsage.Proofs.Inference.Credit
import SdkUsage.Proofs.Location
import SdkUsage.Proofs.EntryPoint.Insertion
import SdkUsage.Proofs.Scope.Write
import SdkUsage.Proofs.Inference.Unguarded
