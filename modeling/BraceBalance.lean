import BraceBalance.FileTree
import BraceBalance.Main
import BraceBalance.Notice
import BraceBalance.Proofs.Memory
import BraceBalance.Proofs.Tokens
import BraceBalance.Proofs.Counting
import BraceBalance.Proofs.Matching
import BraceBalance.Proofs.Bodies
import BraceBalance.Proofs.Partners
import BraceBalance.Proofs.Lines
import BraceBalance.Proofs.Ranges
import BraceBalance.Proofs.LineTexts
import BraceBalance.Proofs.Placeholders
import BraceBalance.Proofs.Spans
import BraceBalance.Proofs.Checking
import BraceBalance.Proofs.Masking
import BraceBalance.Proofs.Safety
import BraceBalance.Proofs.Constructs
import BraceBalance.Proofs.Results
import BraceBalance.Proofs.Stopping
import BraceBalance.Proofs.Concatenation
import BraceBalance.Proofs.Boundaries
import BraceBalance.Proofs.Edges
import BraceBalance.Proofs.Places
import BraceBalance.Proofs.Carets
import BraceBalance.Stretch
import BraceBalance.Proofs.Stretches
import BraceBalance.Proofs.Limits
import BraceBalance.Proofs.Spots
import BraceBalance.Proofs.Comments
import BraceBalance.Proofs.Insertion
import BraceBalance.Proofs.OpenEnds
import BraceBalance.Proofs.Arguments
import BraceBalance.Proofs.ExitStatus
import BraceBalance.Proofs.InnerBodies
import BraceBalance.Proofs.Notices
import BraceBalance.Proofs.Colors
import BraceBalance.Proofs.Tables
import BraceBalance.Proofs.Continuations
import BraceBalance.Proofs.Anchors
import BraceBalance.Proofs.Files
