import GuardedExpr.Evaluator
import GuardedExpr.Heap.Equality
import GuardedExpr.Host.Recipe
import GuardedExpr.Proofs.Arguments
import GuardedExpr.Proofs.AssignmentOperator
import GuardedExpr.Proofs.Binding
import GuardedExpr.Proofs.Bisimilarity
import GuardedExpr.Proofs.CallOrder
import GuardedExpr.Proofs.Constancy
import GuardedExpr.Proofs.ContainerNumbers
import GuardedExpr.Proofs.Documents
import GuardedExpr.Proofs.EqualValues
import GuardedExpr.Proofs.FiniteMaps
import GuardedExpr.Proofs.ForbiddenNames
import GuardedExpr.Proofs.Hiding
import GuardedExpr.Proofs.Joining
import GuardedExpr.Proofs.NameGuards
import GuardedExpr.Proofs.Numerals
import GuardedExpr.Proofs.Parsing
import GuardedExpr.Proofs.PartialAssignment
import GuardedExpr.Proofs.Respelling
import GuardedExpr.Proofs.Room
import GuardedExpr.Proofs.Shadowing
import GuardedExpr.Proofs.Siblings
import GuardedExpr.Proofs.Slices
import GuardedExpr.Proofs.Spelling
import GuardedExpr.Proofs.StringMembers
import GuardedExpr.Proofs.Temporaries
import GuardedExpr.Proofs.Wrapping
import GuardedExpr.Proofs.WrittenNumbers
