import TraitCheck.FieldMap.Basic
import TraitCheck.Settings.Decode
import TraitCheck.Proofs.Inference.Completeness
import TraitCheck.Proofs.Check.Lets
import TraitCheck.Proofs.Check.Generics
import TraitCheck.Proofs.Matching.Exhaustive
import TraitCheck.Proofs.Check.Operands
import TraitCheck.Proofs.Check.Conformance
import TraitCheck.Proofs.Printing
import TraitCheck.Proofs.Check.Reordering
import TraitCheck.Proofs.Check.AliasInstances
import TraitCheck.Proofs.Instantiation
import TraitCheck.Proofs.Trait.Fulfilment
import TraitCheck.Proofs.Unification.Culprits
import TraitCheck.Proofs.Inference.MethodCalls
import TraitCheck.Proofs.Diagnostic.Accounts
import TraitCheck.Proofs.Diagnostic.Lines
import TraitCheck.Proofs.Check.LocalHistory
import TraitCheck.Proofs.Placeholders
import TraitCheck.Proofs.Check.RecordPatterns
