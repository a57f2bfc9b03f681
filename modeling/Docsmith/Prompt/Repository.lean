import Docsmith.Prompt.Slot

/-! # Prompts for the document on a repository -/

namespace Docsmith.Prompt

def readmeFormat : String :=
  "> ### README\n"
    ++ "> #### Description\n"
    ++ "> A concise paragraph summarizing the software.\n"
    ++ "> #### Features\n"
    ++ "> - Feature1...\n"
    ++ "> - Feature2...\n"
    ++ "> #### Standards\n"
    ++ "> - Standard1\n"
    ++ "> - Standard2\n"

def readmeNotes : String :=
  "- #### Features is a list of main features that the software providing to users. Each "
    ++ "feature should be described in one sentences. Don't mention specific function names. "
    ++ "Don't make up unverified features. \n"
    ++ "- #### Standards is the names of standards that the software designed for. For example, "
    ++ "most of the APIs in `cJSON` are designed for JSON serialization, we can speculate it "
    ++ "support JSON 1.0. This example does not mean that the software implements JSON 1.0, so "
    ++ "don't write it in the README unless you are sure about it.\n"

def repositoryTemplate : String :=
  "\n"
    ++ "You are a senior software engineer. You have developed a \x7blang\x7d software. \n"
    ++ "Now you need to write a Github README.md for it to help users understand your software.\n"
    ++ "\n"
    ++ formatNote ++ "\n"
    ++ readmeFormat ++ "\n"
    ++ "Please Note:\n"
    ++ readmeNotes
    ++ fixedHeadings "xxx" ++ " \n"
    ++ noHeadings ++ ". "
    ++ "Don't output descriptions out of the format.\n\n"
    ++ "Here is the documentation of main modules of your software. You should refer it to "
    ++ "write the README.md:\n\n"
    ++ "\x7bmodules_doc\x7d\n"

def repository (lang modules : String) : String :=
  fillAll [("modules_doc", modules), ("lang", lang)] repositoryTemplate

def questionsTemplate : String :=
  "\n"
    ++ "You are a senior software engineer.\n\n"
    ++ "Your aim is to improve a \x7blang\x7d software you developed.\n"
    ++ "In order to find room for improvement in the software, you decide to refer to the focus "
    ++ "of excellent software and design some questions to help you improve the software.\n\n"
    ++ "The summary of your software is as follows:\n\n"
    ++ "\x7brepo_doc\x7d\n\n"
    ++ workflow
    ++ "1. Refer excellent software. You should find and analyze some widely-used software "
    ++ "which provide similar functions to yours as benchmarks. \n"
    ++ "2. Check out the concerns. If you're working on XML serialization software, you might "
    ++ "find different software supports different protocols like XML 1.0, XPath, and DOM/SAX. "
    ++ "Similarly, when focusing on software designed for serialization and deserialization "
    ++ "tasks, the format in which data is produced becomes a significant consideration. "
    ++ "Protobuf, for example, excels in compressing objects into a binary format for superior "
    ++ "compression ratios, whereas JSON offers a human-readable representation with greater "
    ++ "ease of manipulation.\n"
    ++ "3. Ask some questions. You should check that whether your software meets the above "
    ++ "concerns so ask some questions to your software first. You may question 'What format is "
    ++ "the software product in?'.\n"
    ++ "4. Check the questions. You should check the questions again and make sure they are "
    ++ "meaningful. Specifically, you should provide a basis for these questions by answering "
    ++ "how excellent software you have found solve these questions.\n\n"
    ++ formatNote ++ "\n"
    ++ "> - Q1: question?\n"
    ++ "> - A1: how software X solve the question\n"
    ++ "> - Q2: question?\n"
    ++ "> - A2: ...\n"
    ++ "> - ...\n\n"
    ++ "Please Note:\n"
    ++ "- Strictly follow the above format for output. Don't output any information outside the "
    ++ "QA list. \n"
    ++ "- Questions should only focus on the functionality of the software, not on performance, "
    ++ "documentations, community maintenance, etc. that cannot be obtained from the software "
    ++ "source code and documentation.\n"
    ++ "- Questions are meant to guide you in improving your software, so don’t get away from "
    ++ "the field your software work for.\n\n"

def questions (lang draft : String) : String :=
  fillAll [("repo_doc", draft), ("lang", lang)] questionsTemplate

def lookupTemplate : String :=
  "\n"
    ++ "You are an expert on software engineering. \n"
    ++ "You have found a software that meets your requirements. But you still have some "
    ++ "questions about the software.\n"
    ++ "Luckily, the documentation of the software is available with a document query tool.\n\n"
    ++ "The software you found is summarized as follows:\n\n"
    ++ "\x7brepo_doc\x7d\n\n"
    ++ "The software have the following core modules:\n\n"
    ++ "\x7bmodules_doc\x7d\n\n"
    ++ "Please answer the questions based on the documentation of the software.\n\n"
    ++ "Please Note:\n"
    ++ "- When answering a question, you should first draw your conclusion in one sentence.\n"
    ++ "- Each question should be answered in only one paragraph.\n"

def lookup (draft modules : String) : String :=
  fillAll [("repo_doc", draft), ("modules_doc", modules)] lookupTemplate

def answerTemplate : String :=
  "\n"
    ++ "You are an expert on software engineering. \n"
    ++ "You have found a software that meets your requirements. But you still have some "
    ++ "questions about the software.\n\n"
    ++ "The software you found is summarized as follows:\n\n"
    ++ "\x7brepo_doc\x7d\n\n"
    ++ "The software have the following functions maybe related to your questions:\n\n"
    ++ "\x7bfunctions_doc\x7d\n\n"
    ++ "Please answer the following questions based on the documentation of the software:\n\n"
    ++ "\x7bquestion\x7d\n\n"
    ++ "Please Note:\n"
    ++ "- When answering the question, you should first draw your conclusion in one sentence.\n"
    ++ "- The question should be answered in only one paragraph.\n"

def answer (draft routines question : String) : String :=
  fillAll [("repo_doc", draft), ("functions_doc", routines), ("question", question)]
    answerTemplate

def enhanceRepositoryTemplate : String :=
  "\n"
    ++ "You are an expert in software. \n"
    ++ "Your task is to read the README documentation of a \x7blang\x7d project and improve it.\n"
    ++ "\n"
    ++ "The README is as follows:\n\n"
    ++ "\x7brepo_doc\x7d\n\n"
    ++ "You suspect that there is fraud in this README. \n"
    ++ "In order to learn more about the software, you asked the software developer some "
    ++ "questions and got answers. \n"
    ++ "The questions are as follows.\n\n"
    ++ "\x7bqa\x7d\n\n"
    ++ "Now you have the confidence to improve this README based on the above QA.\n"
    ++ "Especially, you should check the following points:\n"
    ++ "1. The description should accurately and clearly describe the main functions of the "
    ++ "software.\n"
    ++ "2. Ensure that each feature is implemented in software and reflects its advantages over "
    ++ "competing products.\n"
    ++ "3. The standards should be verified and reflect the core functionality of the software.\n"
    ++ "\n"
    ++ "The improved README should keep the same format as before with a new section \"#### "
    ++ "Scenarios\".\n"
    ++ "To ensure the same format, you should follow the standard format in the Markdown "
    ++ "reference paragraph below. You do not need to write the reference symbols `>` when you "
    ++ "output:\n\n"
    ++ readmeFormat
    ++ "> #### Scenarios\n"
    ++ "> - Scenario1...\n"
    ++ "> - Scenario2...\n\n"
    ++ "Please Note:\n"
    ++ readmeNotes
    ++ "- #### Scenarios is a list of scenarios that the software can be used in. For example, "
    ++ "JSON is more suitable for serialization scenarios that require fast iteration and are "
    ++ "easy for humans to read; while Protobuf is suitable for data exchange between systems "
    ++ "that have high requirements for performance and cross-language communication.\n"
    ++ fixedHeadings "xxx" ++ " \n"
    ++ "- You can revise the content in #### Description, #### Features and #### Standards "
    ++ "sections if they are not consistent with the answers to the questions.\n"
    ++ noHeadings ++ ". "
    ++ "Do not output descriptions of improvements or summary in the end.\n"

def enhanceRepository (lang draft answers : String) : String :=
  fillAll [("repo_doc", draft), ("qa", answers), ("lang", lang)] enhanceRepositoryTemplate

end Docsmith.Prompt
