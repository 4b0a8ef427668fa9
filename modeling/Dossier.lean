import Dossier.Proofs.Collection.Transparent
import Dossier.Proofs.Filter.Pattern
import Dossier.Proofs.Raw.Quoting
import Dossier.Proofs.Session.Scope
import Dossier.Proofs.Statement.Changing
import Dossier.Proofs.Statement.Guarding
import Dossier.Proofs.Statement.Placeholders
import Dossier.Proofs.Statement.Shape
import Dossier.Proofs.Store.Accounting
import Dossier.Proofs.Store.Agreeing
import Dossier.Proofs.Store.Conjoined
import Dossier.Proofs.Store.Generated
import Dossier.Proofs.Store.Indexed
import Dossier.Proofs.Store.Listing
import Dossier.Proofs.Store.Membership
import Dossier.Proofs.Store.Policing
import Dossier.Proofs.Store.Ranges
import Dossier.Proofs.Store.Registry
import Dossier.Proofs.Store.Repeating
import Dossier.Proofs.Store.Summing
import Dossier.Proofs.Store.Upserting
import Dossier.Proofs.Update.Language
import Dossier.Store.Configured
