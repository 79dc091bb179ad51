import PageLint.CommandLine.Run
import PageLint.Files.Tree
import PageLint.Main
import PageLint.Yaml.Node.Document
import PageLint.Proofs.CommandLine.ExitCode
import PageLint.Proofs.Config.Failure
import PageLint.Proofs.Config.Survival
import PageLint.Proofs.Config.SwitchOff
import PageLint.Proofs.Text.Start
import PageLint.Proofs.Markup.DocumentOrder
import PageLint.Proofs.Markup.SpanOrder
import PageLint.Proofs.Markup.TagSearch
import PageLint.Proofs.Report.Anchor
import PageLint.Proofs.Report.ClosingTags
import PageLint.Proofs.Report.Decoding
import PageLint.Proofs.Report.OwnTag
import PageLint.Proofs.Report.Painting
import PageLint.Proofs.Report.RawText
import PageLint.Proofs.Report.Repetition
import PageLint.Proofs.Report.Returns
import PageLint.Proofs.Report.Selection
import PageLint.Proofs.Stylesheet.Recovery
import PageLint.Proofs.Stylesheet.Closing
import PageLint.Proofs.Stylesheet.Positions
import PageLint.Proofs.Stylesheet.SourceText
import PageLint.Proofs.Stylesheet.Comments
import PageLint.Proofs.Stylesheet.NestingLimit
import PageLint.Proofs.Stylesheet.ValueText
import PageLint.Proofs.Stylesheet.Reader
import PageLint.Proofs.Config.Starts
import PageLint.Proofs.Report.Enumeration
import PageLint.Proofs.Report.Preorder
import PageLint.Proofs.Stylesheet.Progress
