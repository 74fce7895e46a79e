import RuleSheet.Ruleset
import RuleSheet.Sheet.Load
import RuleSheet.Proofs.Choice
import RuleSheet.Proofs.Cursor.Statement
import RuleSheet.Proofs.Formula.Doubled
import RuleSheet.Proofs.Key
import RuleSheet.Proofs.Postfix.Listing
import RuleSheet.Proofs.Respelled
import RuleSheet.Proofs.Session.Naming
import RuleSheet.Proofs.Session.Trace
import RuleSheet.Proofs.Session.Usable
import RuleSheet.Proofs.Sheet.Comment
import RuleSheet.Proofs.Sheet.Joined
import RuleSheet.Proofs.Strict
import RuleSheet.Proofs.Token.Adjacent
import RuleSheet.Proofs.Token.Captured
import RuleSheet.Proofs.Token.Completed
import RuleSheet.Proofs.Token.Disciplined
import RuleSheet.Proofs.Token.Juxtaposed
import RuleSheet.Proofs.Token.Printed
