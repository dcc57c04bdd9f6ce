import TriadLang.Token.Lexer
import TriadLang.Report
import TriadLang.Editor.Braces
import TriadLang.Editor.Hover
import TriadLang.Text.Quoted
import TriadLang.Text.Utf8
import TriadLang.Tree.Parser
import TriadLang.Symbol.Table
import TriadLang.Journal
import TriadLang.Symbol.Resolution
import TriadLang.Tree.Lowering
import TriadLang.Editor.CompileDiagnostics
import TriadLang.Tree.Outline
import TriadLang.Main
import TriadLang.Proofs.Source.Lines
import TriadLang.Proofs.Source.Offsets
import TriadLang.Proofs.Source.Excerpts
import TriadLang.Proofs.Token.Cut
import TriadLang.Proofs.Token.Lexes
import TriadLang.Proofs.Token.Fit
import TriadLang.Proofs.Token.Partition
import TriadLang.Proofs.Token.Numbering
import TriadLang.Proofs.Tree.Grammar
import TriadLang.Proofs.Tree.Reading
import TriadLang.Proofs.Tree.Numeral
import TriadLang.Proofs.Tree.Unparse
import TriadLang.Proofs.Tree.Writing
import TriadLang.Proofs.Tree.RoundTrip
import TriadLang.Proofs.Tree.Drafting
import TriadLang.Proofs.Tree.Moving
import TriadLang.Proofs.Tree.Agreement
import TriadLang.Proofs.Tree.Lowered
import TriadLang.Proofs.Tree.Legible
import TriadLang.Proofs.Tree.Literals
import TriadLang.Proofs.Tree.Kept
import TriadLang.Proofs.Tree.Lookahead
import TriadLang.Proofs.Tree.Prompt
import TriadLang.Proofs.Tree.Earliest
import TriadLang.Proofs.Tree.Bracketed
import TriadLang.Proofs.Tree.Extents
import TriadLang.Proofs.Tree.Placement
import TriadLang.Proofs.Tree.Counted
import TriadLang.Proofs.Tree.Following
import TriadLang.Proofs.Tree.Progress
import TriadLang.Proofs.Tree.Recalled
import TriadLang.Proofs.Symbol.Events
import TriadLang.Proofs.Symbol.Places
import TriadLang.Proofs.Compilation.Stages
import TriadLang.Proofs.Compilation.Course
import TriadLang.Proofs.Compilation.Append
import TriadLang.Proofs.Compilation.Layout
import TriadLang.Proofs.Compilation.Culprit
import TriadLang.Proofs.Compilation.Rendering
import TriadLang.Proofs.Compilation.Faithful
import TriadLang.Proofs.Compilation.Unsupported
import TriadLang.Proofs.Compilation.Notices
import TriadLang.Proofs.Compilation.Leftmost
import TriadLang.Proofs.Compilation.Itemized
import TriadLang.Proofs.Compilation.Exchange
import TriadLang.Proofs.Editor.Balance
import TriadLang.Proofs.Editor.Diagnostics
import TriadLang.Proofs.Editor.SamePlace
import TriadLang.Proofs.Editor.Ranges
import TriadLang.Proofs.Editor.Unmatched
import TriadLang.Proofs.Editor.Words
import TriadLang.Proofs.Editor.Hover
import TriadLang.Proofs.Token.Longest
import TriadLang.Proofs.Token.Unreadable
import TriadLang.Proofs.Token.Calls
import TriadLang.Proofs.Token.Respacing
