import RegexAnatomy.Pattern
import RegexAnatomy.Proofs.Accepted
import RegexAnatomy.Proofs.Binding
import RegexAnatomy.Proofs.Canonical.Bounds
import RegexAnatomy.Proofs.Captures
import RegexAnatomy.Proofs.Classes
import RegexAnatomy.Proofs.Conditions
import RegexAnatomy.Proofs.Groups.Queries
import RegexAnatomy.Proofs.Options.Scope
import RegexAnatomy.Proofs.Options.Spelling
import RegexAnatomy.Proofs.Portable.Direct
import RegexAnatomy.Proofs.Portable.Fixpoint
import RegexAnatomy.Proofs.Quantifiers
import RegexAnatomy.Proofs.References
import RegexAnatomy.Proofs.Refusals
import RegexAnatomy.Proofs.Shape
